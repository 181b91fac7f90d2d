import CodeIndex.Http.Url
import CodeIndex.Json.Record

namespace CodeIndex

/-- A request that posts a JSON body. -/
structure Request where
  target : Text
  host : Text
  authorization : Option Text
  userAgent : Option String
  body : Json

def Request.method : String := "POST"

def Request.contentType : String := "application/json"

/-- A response. Its body may break off after the status has arrived. -/
structure Response where
  status : Nat
  body : Text
  whole : Bool := true

/-- Sends a request; `none` if nobody answers. -/
abbrev Transport := Request → Option Response

namespace Response

def isSuccess (r : Response) : Bool := 200 ≤ r.status && r.status < 300

/-- The statuses whose responses have no body. -/
def isBare (status : Nat) : Bool := status == 204 || status == 304

/-- The body, if it can be read to its end. -/
def text (r : Response) : Option Text :=
  if isBare r.status then some [] else if r.whole then some r.body else none

def reasons : List (Nat × String) :=
  [(100, "Continue"), (101, "Switching Protocols"), (102, "Processing"), (103, "Early Hints"),
   (200, "OK"), (201, "Created"), (202, "Accepted"), (203, "Non Authoritative Information"),
   (204, "No Content"), (205, "Reset Content"), (206, "Partial Content"), (207, "Multi-Status"),
   (208, "Already Reported"), (226, "IM Used"), (300, "Multiple Choices"),
   (301, "Moved Permanently"), (302, "Found"), (303, "See Other"), (304, "Not Modified"),
   (305, "Use Proxy"), (307, "Temporary Redirect"), (308, "Permanent Redirect"),
   (400, "Bad Request"), (401, "Unauthorized"), (402, "Payment Required"), (403, "Forbidden"),
   (404, "Not Found"), (405, "Method Not Allowed"), (406, "Not Acceptable"),
   (407, "Proxy Authentication Required"), (408, "Request Timeout"), (409, "Conflict"),
   (410, "Gone"), (411, "Length Required"), (412, "Precondition Failed"),
   (413, "Payload Too Large"), (414, "URI Too Long"), (415, "Unsupported Media Type"),
   (416, "Range Not Satisfiable"), (417, "Expectation Failed"), (418, "I'm a teapot"),
   (421, "Misdirected Request"), (422, "Unprocessable Entity"), (423, "Locked"),
   (424, "Failed Dependency"), (425, "Too Early"), (426, "Upgrade Required"),
   (428, "Precondition Required"), (429, "Too Many Requests"),
   (431, "Request Header Fields Too Large"), (451, "Unavailable For Legal Reasons"),
   (500, "Internal Server Error"), (501, "Not Implemented"), (502, "Bad Gateway"),
   (503, "Service Unavailable"), (504, "Gateway Timeout"), (505, "HTTP Version Not Supported"),
   (506, "Variant Also Negotiates"), (507, "Insufficient Storage"), (508, "Loop Detected"),
   (510, "Not Extended"), (511, "Network Authentication Required")]

def reason (r : Response) : String :=
  (reasons.lookup r.status).getD "<unknown status code>"

end Response

/-- A text for a header: no control characters but the tab. -/
def isHeaderText (t : Text) : Bool :=
  t.all fun c => c == '\t' || (0x20 ≤ c.toNat && c.toNat != 0x7F)

/-- The body of a request for the vectors of texts. -/
def embeddingBody (model : String) (texts : List Text) : Json :=
  .object [("input", .array (texts.map Json.ofText)), ("model", .ofString model)]

def readVector (j : Json) : Option Embedding := j.array?.bind fun js => js.mapM Json.binary32?

end CodeIndex
