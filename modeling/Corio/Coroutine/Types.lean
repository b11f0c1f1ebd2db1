import Corio.Foundation.Dict
import Corio.Foundation.Text
import Mathlib.Data.List.Infix

/-! # Requests and responses of the coroutine server

The value types of `Types.h` and the functions on them. An `unordered_map` is a
`Dict`: nothing in the server depends on the order it iterates in.
-/

namespace Corio.Coroutine

def toLower (input : Bytes) : Bytes := input.map tolower

def trim (input : Bytes) : Bytes := (input.dropWhile isspace).rdropWhile isspace

structure HttpRequest where
  method : Bytes
  target : Bytes
  version : Bytes
  headers : Dict Bytes Bytes
  body : Bytes
  deriving DecidableEq, Repr

namespace HttpRequest

def isGet (r : HttpRequest) : Bool := r.method == bytes "GET"

def isHead (r : HttpRequest) : Bool := r.method == bytes "HEAD"

def isPost (r : HttpRequest) : Bool := r.method == bytes "POST"

/-- `value.find(word) != std::string::npos`. -/
def mentions (value word : Bytes) : Bool := decide (word <:+: value)

def keepAlive (r : HttpRequest) : Bool :=
  match r.headers.find? (bytes "connection") with
  | some field =>
      let value := toLower field
      if mentions value (bytes "close") then false
      else if mentions value (bytes "keep-alive") then true
      else r.version == bytes "HTTP/1.1"
  | none => r.version == bytes "HTTP/1.1"

end HttpRequest

structure HttpResponse where
  status : Nat := 200
  reason : Bytes := bytes "OK"
  headers : List (Bytes × Bytes) := []
  body : Bytes := []
  headOnly : Bool := false
  deriving DecidableEq, Repr

namespace HttpResponse

def headerLine (header : Bytes × Bytes) : Bytes :=
  header.1 ++ bytes ": " ++ header.2 ++ bytes "\r\n"

def toWire (r : HttpResponse) : Bytes :=
  let hasContentLength := r.headers.any fun header => toLower header.1 == bytes "content-length"
  bytes "HTTP/1.1 " ++ toDecimalString r.status ++ bytes " " ++ r.reason ++ bytes "\r\n"
    ++ r.headers.flatMap headerLine
    ++ (if hasContentLength then []
        else bytes "Content-Length: " ++ toDecimalString r.body.length ++ bytes "\r\n")
    ++ bytes "\r\n"
    ++ (if r.headOnly then [] else r.body)

end HttpResponse

/-- The suffix from the last dot on, when there is one. -/
def lastDot (path : Bytes) : Option Bytes :=
  match path.reverse.findIdx? (· == 46) with
  | none => none
  | some i => some (path.drop (path.length - 1 - i))

def mimeTypeFor (path : Bytes) : Bytes :=
  match lastDot path with
  | none => bytes "text/plain; charset=utf-8"
  | some suffix =>
      let ext := toLower suffix
      if ext = bytes ".html" ∨ ext = bytes ".htm" then bytes "text/html; charset=utf-8"
      else if ext = bytes ".css" then bytes "text/css; charset=utf-8"
      else if ext = bytes ".js" then bytes "application/javascript; charset=utf-8"
      else if ext = bytes ".json" then bytes "application/json; charset=utf-8"
      else if ext = bytes ".png" then bytes "image/png"
      else if ext = bytes ".jpg" ∨ ext = bytes ".jpeg" then bytes "image/jpeg"
      else if ext = bytes ".gif" then bytes "image/gif"
      else if ext = bytes ".ico" then bytes "image/x-icon"
      else bytes "application/octet-stream"

example : mimeTypeFor (bytes "/srv/a.b/Index.HTML") = bytes "text/html; charset=utf-8" := by decide

end Corio.Coroutine
