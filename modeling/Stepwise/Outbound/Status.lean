/-!
# Status codes of answers

An outbound call succeeds on a status from 200 to 299. Every other status is a failure whose
wording names the class of the code, the code with its standard phrase, the address, and for a
redirect the place it points to.
-/

namespace Stepwise.Outbound

/-- The standard phrase of a status code, empty for an unknown code. -/
def reason (code : Int) : String :=
  match code with
  | 100 => "Continue"
  | 101 => "Switching Protocols"
  | 102 => "Processing"
  | 103 => "Early Hints"
  | 200 => "OK"
  | 201 => "Created"
  | 202 => "Accepted"
  | 203 => "Non-Authoritative Information"
  | 204 => "No Content"
  | 205 => "Reset Content"
  | 206 => "Partial Content"
  | 207 => "Multi-Status"
  | 208 => "Already Reported"
  | 226 => "IM Used"
  | 300 => "Multiple Choices"
  | 301 => "Moved Permanently"
  | 302 => "Found"
  | 303 => "See Other"
  | 304 => "Not Modified"
  | 305 => "Use Proxy"
  | 307 => "Temporary Redirect"
  | 308 => "Permanent Redirect"
  | 400 => "Bad Request"
  | 401 => "Unauthorized"
  | 402 => "Payment Required"
  | 403 => "Forbidden"
  | 404 => "Not Found"
  | 405 => "Method Not Allowed"
  | 406 => "Not Acceptable"
  | 407 => "Proxy Authentication Required"
  | 408 => "Request Timeout"
  | 409 => "Conflict"
  | 410 => "Gone"
  | 411 => "Length Required"
  | 412 => "Precondition Failed"
  | 413 => "Request Entity Too Large"
  | 414 => "Request-URI Too Long"
  | 415 => "Unsupported Media Type"
  | 416 => "Requested Range Not Satisfiable"
  | 417 => "Expectation Failed"
  | 418 => "I'm a teapot"
  | 421 => "Misdirected Request"
  | 422 => "Unprocessable Entity"
  | 423 => "Locked"
  | 424 => "Failed Dependency"
  | 425 => "Too Early"
  | 426 => "Upgrade Required"
  | 428 => "Precondition Required"
  | 429 => "Too Many Requests"
  | 431 => "Request Header Fields Too Large"
  | 451 => "Unavailable For Legal Reasons"
  | 500 => "Internal Server Error"
  | 501 => "Not Implemented"
  | 502 => "Bad Gateway"
  | 503 => "Service Unavailable"
  | 504 => "Gateway Timeout"
  | 505 => "HTTP Version Not Supported"
  | 506 => "Variant Also Negotiates"
  | 507 => "Insufficient Storage"
  | 508 => "Loop Detected"
  | 510 => "Not Extended"
  | 511 => "Network Authentication Required"
  | _ => ""

/-- The status of an answer that counts as success. -/
def isSuccess (code : Int) : Bool := decide (200 ≤ code ∧ code ≤ 299)

/-- The status of an answer that sends the caller to another address. -/
def isRedirect (code : Int) : Bool := [301, 302, 303, 307, 308].contains code

/-- The class of a code that is no success. -/
def statusClass (code : Int) : String :=
  match code / 100 with
  | 1 => "Informational response"
  | 3 => "Redirect response"
  | 4 => "Client error"
  | 5 => "Server error"
  | _ => "Invalid status code"

/-- An answer with a status that is no success. -/
structure BadStatus where
  code : Int
  url : String
  /-- Where the answer points to, for a redirect that says so. -/
  location : Option String
  deriving DecidableEq

/-- The wording of a status that is no success. -/
def BadStatus.message (s : BadStatus) : String :=
  statusClass s.code ++ " '" ++ toString s.code ++ " " ++ reason s.code ++ "' for url '"
    ++ s.url ++ "'\n"
    ++ (match s.location with
      | some location => "Redirect location: '" ++ location ++ "'\n"
      | none => "")
    ++ "For more information check: https://developer.mozilla.org/en-US/docs/Web/HTTP/Status/"
    ++ toString s.code

/-- How an outbound call can fail before there is an answer. -/
inductive Transport
  | connectError
  | connectTimeout
  | readError
  | readTimeout
  | protocolError
  deriving DecidableEq

end Stepwise.Outbound
