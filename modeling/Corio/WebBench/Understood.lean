import Corio.Coroutine.Serialize
import Corio.Epoll.Pages
import Corio.WebBench.Request

/-! # What the servers make of the benchmark

A request that WebBench sends to a server itself is one that the parsers of both servers read
back as it was meant, apart from targets that the epoll server takes for another method.
-/

namespace Corio.WebBench

open Coroutine (CR LF WireRequest Inline IsToken IsName IsValue tryParseRequest)
open Epoll (Entry RequestHead RequestLine CleanEntry TakesHead rawLine rawLines)
open Find

/-- There is no white space in it, and it names a host. -/
structure HttpUrl.Plain (u : HttpUrl) : Prop where
  noSpace : ∀ c ∈ u.text, isspace c = false
  named : u.host ≠ []

def connectionField (keepAlive : Bool) : Entry :=
  (bytes "Connection", if keepAlive then bytes "Keep-Alive" else bytes "close")

/-- The header lines, when there is no proxy. -/
def fields (g : Globals) (http10 : Nat) (host : Bytes) : List Entry :=
  [(bytes "User-Agent", bytes "WebBench 1.5"), (bytes "Host", host)] ++
    if http10 = 2 then [connectionField g.keepAlive] else []

def versionText (http10 : Nat) : Bytes := if http10 = 2 then bytes "HTTP/1.1" else bytes "HTTP/1.0"

/-- The connection is to be kept. -/
def AsksToKeep (g : Globals) : Prop := raised g = 2 ∧ g.keepAlive = true

/-- What the coroutine server gets is the request that was meant. -/
structure Meant (g : Globals) (u : HttpUrl) (request : Coroutine.HttpRequest) : Prop where
  method : request.method = methodName g.method
  target : request.target = Coroutine.stripQuery u.target
  version : request.version = versionText (raised g)
  host : request.headers.find? (bytes "host") = some u.host
  body : request.body = []
  keepAlive : request.keepAlive = true ↔ AsksToKeep g

/-- What the epoll server gets is the head of the request that was meant. Its parsers take it as
    such unless another method is found in its target, and what they make of it sets `keepAlive_`
    when it is to be kept. -/
structure MeantHead (g : Globals) (u : HttpUrl) (h : RequestHead) : Prop where
  method : Epoll.methodName h.line.method = methodName g.method
  target : h.line.target = u.target
  version : bytes "HTTP/" ++ Epoll.versionName h.line.version = versionText (raised g)
  taken : (∃ d, TakesHead h d) ↔
    (g.method = .head → ¬ bytes "GET" <:+: u.target ∧ ¬ bytes "POST" <:+: u.target)
  keepAlive : ∀ d, TakesHead h d → ∀ fs socket,
    (Epoll.analysisRequest fs { d with state := .analysis } socket).2.1.keepAlive = true ↔
      AsksToKeep g

section Text

variable {g : Globals} {u : HttpUrl} {http10 : Nat}

theorem requestText_eq (direct : g.proxyhost = none) (version : http10 = 1 ∨ http10 = 2)
    (host target : Bytes) :
    requestText g http10 host target =
      Coroutine.requestLineOf (methodName g.method) target (versionText http10) ++ [13, 10] ++
        rawLines (fields g http10 host) ++ [13, 10] := by
  have ends : bytes "\r\n" = [13, 10] := by decide
  have agent : bytes "User-Agent: WebBench 1.5\r\n" =
      bytes "User-Agent" ++ [58, 32] ++ bytes "WebBench 1.5" ++ [13, 10] := by decide
  have named : bytes "Host: " = bytes "Host" ++ [58, 32] := by decide
  have kept : bytes "Connection: Keep-Alive\r\n" =
      bytes "Connection" ++ [58, 32] ++ bytes "Keep-Alive" ++ [13, 10] := by decide
  have closed : bytes "Connection: close\r\n" =
      bytes "Connection" ++ [58, 32] ++ bytes "close" ++ [13, 10] := by decide
  have one : bytes " HTTP/1.0" = bytes " " ++ bytes "HTTP/1.0" := by decide
  have two : bytes " HTTP/1.1" = bytes " " ++ bytes "HTTP/1.1" := by decide
  rcases version with rfl | rfl
  · simp [requestText, Coroutine.requestLineOf, versionText, fields, rawLines, rawLine, direct,
      ends, agent, named, one]
  · cases keep : g.keepAlive <;>
      simp [requestText, Coroutine.requestLineOf, versionText, fields, rawLines, rawLine, direct,
        ends, agent, named, two, kept, closed, connectionField, keep]

theorem built_request (direct : g.proxyhost = none) (version : raised g = 1 ∨ raised g = 2) :
    (u.built g).request =
      Coroutine.requestLineOf (methodName g.method) u.target (versionText (raised g)) ++ [13, 10] ++
        rawLines (fields g (raised g) u.host) ++ [13, 10] :=
  requestText_eq direct version _ _

/-- The parts of an URL have no white space either. -/
theorem HttpUrl.Plain.target (plain : u.Plain) : ∀ c ∈ u.target, isspace c = false :=
  fun c member => plain.noSpace c (by simp [HttpUrl.text, member])

theorem HttpUrl.Plain.host (plain : u.Plain) : ∀ c ∈ u.host, isspace c = false := by
  intro c member
  refine plain.noSpace c ?_
  simp only [HttpUrl.text, HttpUrl.authority, List.mem_append]
  cases u.port <;> simp [member]

theorem inline_of_noSpace {s : Bytes} (noSpace : ∀ c ∈ s, isspace c = false) : Inline s where
  noCR member := by simpa [isspace, CR] using noSpace _ member
  noLF member := by simpa [isspace, LF] using noSpace _ member

theorem trim_of_noSpace {s : Bytes} (noSpace : ∀ c ∈ s, isspace c = false) :
    Coroutine.trim s = s := by
  have front : s.dropWhile isspace = s := by
    cases s with
    | nil => rfl
    | cons c s => simp [noSpace c List.mem_cons_self]
  rw [Coroutine.trim, front, List.rdropWhile_eq_self_iff]
  intro nonempty
  simp [noSpace _ (List.getLast_mem nonempty)]

end Text

section Servers

variable {g : Globals} {u : HttpUrl}

theorem methodToken (method : Method) : IsToken (methodName method) := by
  cases method <;> exact ⟨⟨by decide, by decide⟩, by decide, by decide⟩

theorem versionToken (http10 : Nat) : IsToken (versionText http10) := by
  unfold versionText
  split <;> exact ⟨⟨by decide, by decide⟩, by decide, by decide⟩

theorem HttpUrl.Plain.token (plain : u.Plain) : IsToken u.target where
  toInline := inline_of_noSpace plain.target
  nonempty := by simp [HttpUrl.target]
  noSpace member := absurd (plain.target 32 member) (by decide)

theorem mem_fields {http10 : Nat} {host : Bytes} {e : Entry} (member : e ∈ fields g http10 host) :
    e = (bytes "User-Agent", bytes "WebBench 1.5") ∨ e = (bytes "Host", host) ∨
      e = connectionField g.keepAlive := by
  simp only [fields, List.cons_append, List.nil_append, List.mem_cons] at member
  split at member
  · simpa using member
  · simp only [List.not_mem_nil, or_false] at member
    exact member.imp_right .inl

theorem fields_key {http10 : Nat} {host : Bytes} {e : Entry} (member : e ∈ fields g http10 host) :
    e.1 = bytes "User-Agent" ∨ e.1 = bytes "Host" ∨ e.1 = bytes "Connection" := by
  rcases mem_fields member with rfl | rfl | rfl
  · exact .inl rfl
  · exact .inr (.inl rfl)
  · exact .inr (.inr rfl)

theorem fields_names (http10 : Nat) (host : Bytes) : ∀ e ∈ fields g http10 host, IsName e.1 := by
  intro e member
  rcases fields_key member with key | key | key <;> rw [key] <;>
    exact ⟨⟨by decide, by decide⟩, by decide, by decide⟩

theorem fields_values {http10 : Nat} {host : Bytes} (noSpace : ∀ c ∈ host, isspace c = false) :
    ∀ e ∈ fields g http10 host, IsValue e.2 := by
  intro e member
  rcases mem_fields member with rfl | rfl | rfl
  · exact ⟨⟨by decide, by decide⟩, by decide⟩
  · exact ⟨inline_of_noSpace noSpace, trim_of_noSpace noSpace⟩
  · unfold connectionField
    cases g.keepAlive <;> exact ⟨⟨by decide, by decide⟩, by decide⟩

theorem fields_distinct (http10 : Nat) (host : Bytes) :
    ((fields g http10 host).map fun e => Coroutine.toLower e.1).Nodup := by
  unfold fields
  split
  · simp only [connectionField, List.cons_append, List.nil_append, List.map_cons, List.map_nil]
    decide
  · simp only [List.cons_append, List.nil_append, List.map_cons, List.map_nil]
    decide

theorem fields_noLength (http10 : Nat) (host : Bytes) :
    ∀ e ∈ fields g http10 host, Coroutine.toLower e.1 ≠ bytes "content-length" := by
  intro e member
  rcases fields_key member with key | key | key <;> rw [key] <;> decide

theorem wireText_built (direct : g.proxyhost = none) (version : raised g = 1 ∨ raised g = 2) :
    Coroutine.wireText (methodName g.method) u.target (versionText (raised g))
      (fields g (raised g) u.host) [] = (u.built g).request := by
  have line : ∀ e : Entry, Coroutine.fieldLine e ++ [CR, LF] = rawLine e := by
    intro e
    have separator : bytes ": " = [58, 32] := by decide
    simp only [Coroutine.fieldLine, rawLine, separator, CR, LF]
  have lines : unlines CR LF ((fields g (raised g) u.host).map Coroutine.fieldLine) =
      rawLines (fields g (raised g) u.host) := by
    simp only [unlines, rawLines, List.flatMap_map, line]
  rw [built_request direct version, Coroutine.wireText, unlines_cons, lines, List.append_nil]
  rfl

/-- The request as the coroutine server reads it. -/
def HttpUrl.wire (u : HttpUrl) (g : Globals) (direct : g.proxyhost = none)
    (version : raised g = 1 ∨ raised g = 2) (plain : u.Plain) (short : u.text.length ≤ 1500)
    (roomy : u.Roomy) : WireRequest where
  method := methodName g.method
  target := u.target
  version := versionText (raised g)
  headers := fields g (raised g) u.host
  body := []
  methodToken := methodToken g.method
  targetToken := plain.token
  versionToken := versionToken (raised g)
  names := fields_names (raised g) u.host
  values := fields_values plain.host
  distinct := fields_distinct (raised g) u.host
  lengths e member same := absurd same (fields_noLength (raised g) u.host e member)
  announced some_ := absurd rfl some_
  fits := by
    have size : REQUEST_SIZE < 2 ^ 64 := by decide
    rw [wireText_built direct version]
    exact Nat.lt_trans (length_built short roomy) size

theorem fields_clean {http10 : Nat} {host : Bytes} (noSpace : ∀ c ∈ host, isspace c = false)
    (named : host ≠ []) (short : host.length < MAXHOSTNAMELEN) :
    ∀ e ∈ fields g http10 host, CleanEntry e := by
  intro e member
  rcases mem_fields member with rfl | rfl | rfl
  · exact ⟨by decide +kernel, by decide +kernel, by decide⟩
  · have inline_ := inline_of_noSpace noSpace
    have size : MAXHOSTNAMELEN = 64 := rfl
    have key : bytes "Host" ≠ [] ∧ ∀ c ∈ bytes "Host", c ≠ 58 ∧ c ≠ 10 ∧ c ≠ 13 := by
      decide +kernel
    refine ⟨key, ⟨named, fun c inHost => ⟨?_, ?_⟩⟩, by simp only; omega⟩
    · rintro rfl
      exact inline_.noLF inHost
    · rintro rfl
      exact inline_.noCR inHost
  · unfold connectionField
    cases g.keepAlive <;> exact ⟨by decide +kernel, by decide +kernel, by decide⟩

/-- The request as the epoll server reads it. -/
def HttpUrl.head (u : HttpUrl) (g : Globals) (method : Epoll.HttpMethod) (plain : u.Plain)
    (roomy : u.Roomy) : RequestHead where
  line :=
    { method := method
      path := u.path
      version := if raised g = 2 then .http11 else .http10
      noSpace := fun member =>
        plain.token.noSpace (List.mem_cons_of_mem _ member)
      noReturn := fun member => plain.token.noCR (List.mem_cons_of_mem _ member) }
  lines := fields g (raised g) u.host
  clean := fields_clean plain.host plain.named roomy.host

theorem spoken_version (http10 : Nat) :
    bytes "HTTP/" ++ Epoll.versionName (if http10 = 2 then .http11 else .http10) =
      versionText http10 := by
  unfold versionText
  split <;> decide

theorem text_head {method : Epoll.HttpMethod} (direct : g.proxyhost = none)
    (version : raised g = 1 ∨ raised g = 2) (same : Epoll.methodName method = methodName g.method)
    (plain : u.Plain) (roomy : u.Roomy) :
    (u.head g method plain roomy).text = (u.built g).request := by
  have space : bytes " " = [32] := by decide
  rw [built_request direct version]
  simp only [RequestHead.text, HttpUrl.head, RequestLine.text, RequestLine.lead, RequestLine.target,
    same, spoken_version, Coroutine.requestLineOf, HttpUrl.target, space, List.append_assoc,
    List.cons_append, List.nil_append]

section Stored

variable {r : WireRequest} {http10 : Nat} {host : Bytes}

/-- The header fields as the coroutine server stores them. -/
theorem find?_host (headers : r.headers = fields g http10 host) :
    r.expected.headers.find? (bytes "host") = some host := by
  have key : bytes "host" = Coroutine.toLower (bytes "Host") := by decide
  rw [key]
  refine Dict.find?_of_mem (List.mem_map.mpr ⟨(bytes "Host", host), ?_, rfl⟩)
  simp [headers, fields]

theorem find?_connection (headers : r.headers = fields g http10 host) :
    r.expected.headers.find? (bytes "connection") =
      if http10 = 2 then some (connectionField g.keepAlive).2 else none := by
  have key : bytes "connection" = Coroutine.toLower (bytes "Connection") := by decide
  split
  · rename_i two
    rw [key]
    refine Dict.find?_of_mem (List.mem_map.mpr ⟨connectionField g.keepAlive, ?_, rfl⟩)
    simp [headers, fields, two]
  · rename_i other
    refine Dict.lookup_none.mpr fun member => ?_
    have lowered : r.expected.headers.entries.map Prod.fst =
        [Coroutine.toLower (bytes "User-Agent"), Coroutine.toLower (bytes "Host")] := by
      simp [WireRequest.expected, WireRequest.loweredHeaders, headers, fields, other]
    rw [lowered] at member
    revert member
    decide

end Stored

theorem keepAlive_expected {r : WireRequest} (version : r.version = versionText (raised g))
    (headers : r.headers = fields g (raised g) u.host) (known : raised g = 1 ∨ raised g = 2) :
    r.expected.keepAlive = true ↔ AsksToKeep g := by
  have found := find?_connection headers
  have spoken : r.expected.version = versionText (raised g) := version
  have closes : Coroutine.HttpRequest.mentions (Coroutine.toLower (bytes "close"))
      (bytes "close") = true := by decide
  have keeps : Coroutine.HttpRequest.mentions (Coroutine.toLower (bytes "Keep-Alive"))
        (bytes "close") = false ∧
      Coroutine.HttpRequest.mentions (Coroutine.toLower (bytes "Keep-Alive"))
        (bytes "keep-alive") = true := by decide
  have old : (bytes "HTTP/1.0" == bytes "HTTP/1.1") = false := by decide
  rcases known with one | two
  · simp [Coroutine.HttpRequest.keepAlive, found, spoken, versionText, one, AsksToKeep, old]
  · cases keep : g.keepAlive <;>
      simp [Coroutine.HttpRequest.keepAlive, found, two, AsksToKeep, connectionField, keep, closes,
        keeps]

theorem keepsAlive_fields {h : RequestHead} (lines : h.lines = fields g (raised g) u.host)
    (known : raised g = 1 ∨ raised g = 2) : h.keepsAlive = true ↔ AsksToKeep g := by
  have agent : (bytes "Connection" == bytes "User-Agent") = false := by decide
  have named : (bytes "Connection" == bytes "Host") = false := by decide
  have closed : (bytes "close" == bytes "Keep-Alive") = false ∧
      (bytes "close" == bytes "keep-alive") = false := by decide
  rcases known with one | two
  · simp [RequestHead.keepsAlive, lines, fields, one, AsksToKeep, List.lookup_cons, agent, named]
  · cases keep : g.keepAlive <;>
      simp [RequestHead.keepsAlive, lines, fields, two, AsksToKeep, connectionField, keep,
        closed]

theorem takesHead_head {method : Epoll.HttpMethod} (direct : g.proxyhost = none)
    (version : raised g = 1 ∨ raised g = 2) (same : Epoll.methodName method = methodName g.method)
    (asks : method = .get ∧ g.method = .get ∨ method = .head ∧ g.method = .head)
    (plain : u.Plain) (short : u.text.length ≤ 1500) (roomy : u.Roomy) :
    (∃ d, TakesHead (u.head g method plain roomy) d) ↔
      (g.method = .head → ¬ bytes "GET" <:+: u.target ∧ ¬ bytes "POST" <:+: u.target) := by
  have size : (u.head g method plain roomy).text.length < 2048 := by
    rw [text_head direct version same]
    exact length_built short roomy
  have small : (u.head g method plain roomy).line.text.length < 2 ^ 31 := by
    rw [Epoll.length_text] at size
    omega
  have line : (u.head g method plain roomy).line.method = method := rfl
  have target : (u.head g method plain roomy).line.target = u.target := rfl
  have answered : (u.head g method plain roomy).line.method ≠ .post := by
    rw [line]
    rcases asks with ⟨rfl, -⟩ | ⟨rfl, -⟩ <;> decide
  rw [Epoll.takesHead_iff answered (by simp [HttpUrl.head, fields]) (by omega),
    RequestLine.earlier_none_iff small, line, target]
  rcases asks with ⟨rfl, get⟩ | ⟨rfl, head⟩
  · simp [get]
  · simp [head]

/-- A request for an URL without white space is built, and is what both servers get. -/
theorem buildRequest_understood (g : Globals) (u : HttpUrl) (direct : g.proxyhost = none)
    (asks : g.method = .get ∨ g.method = .head) (version : raised g = 1 ∨ raised g = 2)
    (plain : u.Plain) (short : u.text.length ≤ 1500) (roomy : u.Roomy) :
    ∃ built request h, buildRequest g u.text = .ok built ∧
      tryParseRequest built.request = some ⟨request, built.request.length⟩ ∧
      Meant g u request ∧ built.request = h.text ∧ MeantHead g u h := by
  have ok : buildRequest g u.text = .ok (u.built g) := by
    rw [buildRequest_text direct, if_neg (by omega), if_pos roomy]
  have method : ∃ method : Epoll.HttpMethod, Epoll.methodName method = methodName g.method ∧
      (method = .get ∧ g.method = .get ∨ method = .head ∧ g.method = .head) := by
    rcases asks with get | head
    · exact ⟨.get, by rw [get]; rfl, .inl ⟨rfl, get⟩⟩
    · exact ⟨.head, by rw [head]; rfl, .inr ⟨rfl, head⟩⟩
  obtain ⟨method, same, asks⟩ := method
  let r := u.wire g direct version plain short roomy
  have whole : r.serialize = (u.built g).request := wireText_built direct version
  have parsed := r.parse_serialize []
  rw [List.append_nil, whole] at parsed
  refine ⟨u.built g, r.expected, u.head g method plain roomy, ok, parsed, ?_,
    (text_head direct version same plain roomy).symm, ?_⟩
  · exact ⟨rfl, rfl, rfl, find?_host rfl, rfl,
      keepAlive_expected rfl rfl version⟩
  · refine ⟨same, rfl, spoken_version (raised g),
      takesHead_head direct version same asks plain short roomy, fun d taken fs socket => ?_⟩
    have answered : (u.head g method plain roomy).line.method ≠ .post := by
      rcases asks with ⟨rfl, -⟩ | ⟨rfl, -⟩ <;> exact Epoll.HttpMethod.noConfusion
    rw [taken.keepAlive answered]
    exact keepsAlive_fields rfl version

/-- `-2 -k --head`. -/
def keeping : Globals := { method := .head, http10 := 2, keepAlive := true }

def pageUrl : HttpUrl where
  scheme := bytes "HTTP://"
  host := bytes "h"
  port := some (bytes "8080")
  path := bytes "a?b"
  http := by decide
  hostBare := by decide
  portBare := by decide

theorem pageUrl_plain : pageUrl.Plain := ⟨by decide +kernel, by decide⟩

theorem buildRequest_understood_kept :
    ∃ (built : Built) (request : Coroutine.HttpRequest) (h : RequestHead) (d : Epoll.HttpData),
      buildRequest keeping pageUrl.text = .ok built ∧
      tryParseRequest built.request = some ⟨request, built.request.length⟩ ∧
      request.keepAlive = true ∧ built.request = h.text ∧ TakesHead h d ∧
      (Epoll.analysisRequest Epoll.noFiles { d with state := .analysis }
        ⟨[], [], []⟩).2.1.keepAlive = true := by
  obtain ⟨built, request, h, ok, parsed, meant, text, meantHead⟩ :=
    buildRequest_understood keeping pageUrl rfl (.inr rfl) (.inr rfl) pageUrl_plain (by decide)
      (by decide)
  have asks : AsksToKeep keeping := ⟨rfl, rfl⟩
  obtain ⟨d, taken⟩ := meantHead.taken.mpr fun _ => by decide
  exact ⟨built, request, h, d, ok, parsed, meant.keepAlive.mpr asks, text, taken,
    (meantHead.keepAlive d taken _ _).mpr asks⟩

end Servers

end Corio.WebBench
