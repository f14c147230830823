import Overseer.Http.Url

/-!
# Exchanges over HTTP

Requests are sent one after the other, and what becomes of each is up to the other side. An exchange is
a script of that: it says what becomes of the requests to come, and keeps those that have been sent.
-/
namespace Overseer.Http

inductive Method where
  | get
  | post
  deriving DecidableEq, Repr, Inhabited

def Method.name : Method → String
  | .get => "GET"
  | .post => "POST"

structure Request where
  method : Method
  url : Url
  body : Option Json := none
  deriving Repr, Inhabited

/-- A reply, with its content as far as it came. -/
structure Reply where
  status : Nat
  content : ByteArray

inductive Answer where
  | reply (r : Reply)
  /-- The connection is closed without a reply. -/
  | dropped

inductive Fate where
  | answered (a : Answer)
  /-- It is never answered, and the program is interrupted meanwhile. -/
  | interrupted

def reasons : List (Nat × String) := [
  (100, "Continue"),
  (101, "Switching Protocols"),
  (102, "Processing"),
  (103, "Early Hints"),
  (200, "OK"),
  (201, "Created"),
  (202, "Accepted"),
  (203, "Non Authoritative Information"),
  (204, "No Content"),
  (205, "Reset Content"),
  (206, "Partial Content"),
  (207, "Multi-Status"),
  (208, "Already Reported"),
  (226, "IM Used"),
  (300, "Multiple Choices"),
  (301, "Moved Permanently"),
  (302, "Found"),
  (303, "See Other"),
  (304, "Not Modified"),
  (305, "Use Proxy"),
  (307, "Temporary Redirect"),
  (308, "Permanent Redirect"),
  (400, "Bad Request"),
  (401, "Unauthorized"),
  (402, "Payment Required"),
  (403, "Forbidden"),
  (404, "Not Found"),
  (405, "Method Not Allowed"),
  (406, "Not Acceptable"),
  (407, "Proxy Authentication Required"),
  (408, "Request Timeout"),
  (409, "Conflict"),
  (410, "Gone"),
  (411, "Length Required"),
  (412, "Precondition Failed"),
  (413, "Payload Too Large"),
  (414, "URI Too Long"),
  (415, "Unsupported Media Type"),
  (416, "Range Not Satisfiable"),
  (417, "Expectation Failed"),
  (418, "I'm a teapot"),
  (421, "Misdirected Request"),
  (422, "Unprocessable Entity"),
  (423, "Locked"),
  (424, "Failed Dependency"),
  (425, "Too Early"),
  (426, "Upgrade Required"),
  (428, "Precondition Required"),
  (429, "Too Many Requests"),
  (431, "Request Header Fields Too Large"),
  (451, "Unavailable For Legal Reasons"),
  (500, "Internal Server Error"),
  (501, "Not Implemented"),
  (502, "Bad Gateway"),
  (503, "Service Unavailable"),
  (504, "Gateway Timeout"),
  (505, "HTTP Version Not Supported"),
  (506, "Variant Also Negotiates"),
  (507, "Insufficient Storage"),
  (508, "Loop Detected"),
  (510, "Not Extended"),
  (511, "Network Authentication Required")]

namespace Reply

def isSuccess (r : Reply) : Bool := 200 ≤ r.status && r.status < 300

def statusText (r : Reply) : String :=
  toString r.status ++ " " ++ (reasons.lookup r.status).getD "<unknown status code>"

/-- The content, which some statuses do not have. -/
def body (r : Reply) : ByteArray := if r.status = 204 || r.status = 304 then .empty else r.content

end Reply

/-- What is reported of a request that had no reply. -/
def Request.dropped (r : Request) : String := "error sending request for url (" ++ r.url.text ++ ")"

/-- What becomes of the requests to come, and those sent so far. Requests beyond the script are dropped. -/
structure Exchange where
  script : List Fate
  sent : List Request := []

namespace Exchange

/-- Sends a request. -/
def send (x : Exchange) (r : Request) : Fate × Exchange :=
  let sent := x.sent ++ [{ r with url := r.url.target }]
  match x.script with
  | [] => (.answered .dropped, { x with sent })
  | fate :: rest => (fate, ⟨rest, sent⟩)

end Exchange

end Overseer.Http
