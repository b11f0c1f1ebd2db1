import Corio.Foundation.Find
import Corio.Foundation.Text

/-! # The request of the benchmark

`build_request` of WebBench, with its fixed buffers. A C string is given without the byte that
ends it. What is written behind the end of `host` or `tmp`, or leaves them without such a byte,
is an `overrun`.
-/

namespace Corio.WebBench

open Find

inductive Method where
  | get | head | options | trace
  deriving DecidableEq, Repr

/-- The globals that the command line sets. -/
structure Globals where
  method : Method := .get
  /-- 0 is HTTP/0.9, 1 is HTTP/1.0, 2 is HTTP/1.1. -/
  http10 : Nat := 1
  forceReload : Bool := false
  proxyhost : Option Bytes := none
  proxyport : Int := 80
  keepAlive : Bool := false
  deriving DecidableEq, Repr

/-- What `build_request` leaves in the globals. -/
structure Built where
  http10 : Nat
  host : Bytes
  proxyport : Int
  request : Bytes
  deriving DecidableEq, Repr

inductive Exit where
  /-- `is not a valid URL.` -/
  | notValid
  /-- `URL is too long.` -/
  | tooLong
  /-- `Only HTTP protocol is directly supported, set --proxy for others.` -/
  | onlyHttp
  /-- `Invalid URL syntax - hostname don't ends with '/'.` -/
  | noSlash
  | overrun
  deriving DecidableEq, Repr

def REQUEST_SIZE : Nat := 2048

def MAXHOSTNAMELEN : Nat := 64

/-- The size of `tmp`. -/
def tmpSize : Nat := 10

/-- `strncpy` into a buffer of zeros. -/
def copied (size : Nat) (s : Bytes) : Except Exit Bytes :=
  if s.length < size then .ok s else .error .overrun

/-- `atoi` on less than ten bytes. -/
def atoi (s : Bytes) : Int :=
  let signed := sign (s.dropWhile isspace)
  let digits := signed.2.takeWhile isdigit
  if signed.1 then - decimal digits else decimal digits

def methodName : Method → Bytes
  | .get => bytes "GET"
  | .head => bytes "HEAD"
  | .options => bytes "OPTIONS"
  | .trace => bytes "TRACE"

/-- The versions that a method or a proxy does not go with are raised. -/
def raised (g : Globals) : Nat :=
  let http10 := if g.forceReload ∧ g.proxyhost ≠ none ∧ g.http10 < 1 then 1 else g.http10
  let http10 := if g.method = .head ∧ http10 < 1 then 1 else http10
  let http10 := if g.method = .options ∧ http10 < 2 then 2 else http10
  if g.method = .trace ∧ http10 < 2 then 2 else http10

/-- `host` and `proxyport` out of what follows the scheme, with the first slash at this index. -/
def hostAndPort (proxyport : Int) (rest : Bytes) (slash : Nat) : Except Exit (Bytes × Int) :=
  match find? (bytes ":") rest with
  | some colon =>
      if colon < slash then do
        let host ← copied MAXHOSTNAMELEN (rest.take colon)
        let tmp ← copied tmpSize ((rest.drop (colon + 1)).take (slash - colon - 1))
        .ok (host, if atoi tmp = 0 then 80 else atoi tmp)
      else do
        let host ← copied MAXHOSTNAMELEN (rest.take slash)
        .ok (host, proxyport)
  | none => do
      let host ← copied MAXHOSTNAMELEN (rest.take slash)
      .ok (host, proxyport)

/-- The text, put together by `strcat`. -/
def requestText (g : Globals) (http10 : Nat) (host target : Bytes) : Bytes :=
  methodName g.method ++ bytes " " ++ target
    ++ (if http10 = 1 then bytes " HTTP/1.0" else if http10 = 2 then bytes " HTTP/1.1" else [])
    ++ bytes "\r\n"
    ++ (if http10 > 0 then bytes "User-Agent: WebBench 1.5\r\n" else [])
    ++ (if g.proxyhost = none ∧ http10 > 0 then bytes "Host: " ++ host ++ bytes "\r\n" else [])
    ++ (if g.forceReload ∧ g.proxyhost ≠ none then bytes "Pragma: no-cache\r\n" else [])
    ++ (if http10 > 1 then
          if ¬ g.keepAlive then bytes "Connection: close\r\n"
          else bytes "Connection: Keep-Alive\r\n"
        else [])
    ++ (if http10 > 0 then bytes "\r\n" else [])

def buildRequest (g : Globals) (url : Bytes) : Except Exit Built :=
  match find? (bytes "://") url with
  | none => .error .notValid
  | some delimiter =>
      if url.length > 1500 then .error .tooLong
      else if (url.take 7).map tolower ≠ bytes "http://" then .error .onlyHttp
      else
        let rest := url.drop (delimiter + 3)
        match find? (bytes "/") rest with
        | none => .error .noSlash
        | some slash =>
            match g.proxyhost with
            | none => do
                let (host, port) ← hostAndPort g.proxyport rest slash
                .ok ⟨raised g, host, port, requestText g (raised g) host (rest.drop slash)⟩
            | some _ => .ok ⟨raised g, [], g.proxyport, requestText g (raised g) [] url⟩

/-- An URL as it is meant. -/
structure HttpUrl where
  scheme : Bytes
  host : Bytes
  port : Option Bytes
  path : Bytes
  http : scheme.map tolower = bytes "http://"
  hostBare : (58 : UInt8) ∉ host ∧ (47 : UInt8) ∉ host
  portBare : ∀ p ∈ port, (47 : UInt8) ∉ p

namespace HttpUrl

/-- Host and port. -/
def authority (u : HttpUrl) : Bytes :=
  match u.port with
  | none => u.host
  | some p => u.host ++ 58 :: p

def target (u : HttpUrl) : Bytes := 47 :: u.path

def text (u : HttpUrl) : Bytes := u.scheme ++ (u.authority ++ u.target)

/-- What is in `proxyport` is left there without a port. -/
def portNumber (u : HttpUrl) (proxyport : Int) : Int :=
  match u.port with
  | none => proxyport
  | some p => if atoi p = 0 then 80 else atoi p

/-- The buffers are long enough. -/
structure Roomy (u : HttpUrl) : Prop where
  host : u.host.length < MAXHOSTNAMELEN
  port : ∀ p ∈ u.port, p.length < tmpSize

instance (u : HttpUrl) : Decidable u.Roomy :=
  decidable_of_iff (u.host.length < MAXHOSTNAMELEN ∧ ∀ p ∈ u.port, p.length < tmpSize)
    ⟨fun room => ⟨room.1, room.2⟩, fun room => ⟨room.host, room.port⟩⟩

/-- What is asked for. -/
def built (u : HttpUrl) (g : Globals) : Built where
  http10 := raised g
  host := u.host
  proxyport := u.portNumber g.proxyport
  request := requestText g (raised g) u.host u.target

end HttpUrl

section Url

variable {g : Globals} {u : HttpUrl} {url : Bytes} {built : Built}

/-- Nothing else is lowered to a symbol before the letters. -/
theorem tolower_sign {c d : UInt8} (lower : tolower c = d) (before : d < 65) : c = d := by
  unfold tolower at lower
  split at lower
  · rename_i upper
    rw [← lower] at before
    simp only [Bool.and_eq_true, decide_eq_true_eq, UInt8.le_iff_toNat_le, UInt8.lt_iff_toNat_lt,
      UInt8.toNat_add, UInt8.reduceToNat] at upper before
    omega
  · exact lower

theorem map_tolower_signs {s signs : Bytes} (lower : s.map tolower = signs)
    (before : ∀ c ∈ signs, c < 65) : s = signs := by
  induction s generalizing signs with
  | nil => exact lower
  | cons c s ih =>
      subst lower
      obtain ⟨here, later⟩ := List.forall_mem_cons.mp before
      rw [List.map_cons, ← tolower_sign rfl here, ← ih rfl later]

/-- A scheme in any case of its letters. -/
theorem scheme_word {scheme : Bytes} (http : scheme.map tolower = bytes "http://") :
    ∃ word, scheme = word ++ bytes "://" ∧ word.length = 4 ∧ (58 : UInt8) ∉ word := by
  rw [show bytes "http://" = bytes "http" ++ bytes "://" by decide] at http
  obtain ⟨word, signs, rfl, lowered, same⟩ := List.map_eq_append_iff.mp http
  refine ⟨word, by rw [map_tolower_signs same (by decide +kernel)], ?_, fun member => ?_⟩
  · have size := congrArg List.length lowered
    rw [List.length_map] at size
    exact size
  · have inWord := List.mem_map_of_mem (f := tolower) member
    rw [lowered] at inWord
    revert inWord
    decide

theorem find?_scheme {scheme : Bytes} (http : scheme.map tolower = bytes "http://")
    (rest : Bytes) : find? (bytes "://") (scheme ++ rest) = some 4 := by
  obtain ⟨word, rfl, size, noColon⟩ := scheme_word http
  rw [List.append_assoc, show bytes "://" = 58 :: [47, 47] by decide, find?_lead noColon, size]

theorem length_scheme {scheme : Bytes} (http : scheme.map tolower = bytes "http://") :
    scheme.length = 7 := by
  rw [← List.length_map tolower, http]
  decide

theorem authority_noSlash (u : HttpUrl) : (47 : UInt8) ∉ u.authority := by
  unfold HttpUrl.authority
  cases port : u.port with
  | none => exact u.hostBare.2
  | some p =>
      have bare := u.portBare p (by rw [port]; rfl)
      simp [u.hostBare.2, bare]

theorem find?_slash (u : HttpUrl) :
    find? (bytes "/") (u.authority ++ u.target) = some u.authority.length := by
  rw [show bytes "/" = [47] by decide]
  exact find?_symbol (authority_noSlash u) u.path

/-- Without a port the first colon, if any, is behind the slash. -/
theorem hostAndPort_host (proxyport : Int) (noPort : u.port = none) :
    hostAndPort proxyport (u.authority ++ u.target) u.authority.length =
      (copied MAXHOSTNAMELEN u.host).map fun host => (host, proxyport) := by
  have authority : u.authority = u.host := by
    simp only [HttpUrl.authority, noPort]
  have absent : find? (bytes ":") u.host = none := by
    rw [show bytes ":" = [58] by decide, find?_none_iff, List.singleton_infix_iff]
    exact u.hostBare.1
  have behind : find? (bytes ":") (u.host ++ 47 :: u.path) =
      (find? (bytes ":") u.path).map (· + (u.host.length + 1)) := by
    rw [find?_across (by decide) (by decide), absent, Option.none_or]
  rw [hostAndPort, authority, HttpUrl.target, behind]
  cases find? (bytes ":") u.path with
  | none =>
      simp only [Option.map_none, List.take_left]
      rfl
  | some i =>
      have later : ¬ i + (u.host.length + 1) < u.host.length := by omega
      simp only [Option.map_some, if_neg later, List.take_left]
      rfl

theorem hostAndPort_port (proxyport : Int) {p : Bytes} (port : u.port = some p) :
    hostAndPort proxyport (u.authority ++ u.target) u.authority.length =
      (copied MAXHOSTNAMELEN u.host).bind fun host =>
        (copied tmpSize p).map fun tmp => (host, if atoi tmp = 0 then 80 else atoi tmp) := by
  have authority : u.authority = u.host ++ 58 :: p := by
    simp only [HttpUrl.authority, port]
  have colon : find? (bytes ":") (u.host ++ 58 :: (p ++ u.target)) = some u.host.length := by
    rw [show bytes ":" = [58] by decide]
    exact find?_symbol u.hostBare.1 _
  have before : u.host.length < (u.host ++ 58 :: p).length := by
    simp only [List.length_append, List.length_cons]
    omega
  have between : (u.host ++ 58 :: p).length - u.host.length - 1 = p.length := by
    simp only [List.length_append, List.length_cons]
    omega
  have rest : (u.host ++ 58 :: (p ++ u.target)).drop (u.host.length + 1) = p ++ u.target := by
    rw [← List.drop_drop, List.drop_left, List.drop_one, List.tail_cons]
  rw [hostAndPort, authority, List.append_assoc, List.cons_append, colon]
  simp only [if_pos before, between, rest, List.take_left]
  rfl

/-- Everything an URL can come to. -/
theorem buildRequest_text (direct : g.proxyhost = none) (u : HttpUrl) :
    buildRequest g u.text =
      if u.text.length > 1500 then .error .tooLong
      else if u.Roomy then .ok (u.built g) else .error .overrun := by
  have found : find? (bytes "://") u.text = some 4 := find?_scheme u.http _
  have lead : u.text.take 7 = u.scheme := by
    rw [HttpUrl.text, ← length_scheme u.http, List.take_left]
  have rest : u.text.drop (4 + 3) = u.authority ++ u.target := by
    have size : 4 + 3 = u.scheme.length := (length_scheme u.http).symm
    rw [size, HttpUrl.text, List.drop_left]
  have path : (u.authority ++ u.target).drop u.authority.length = u.target := List.drop_left
  simp only [buildRequest, found, lead, u.http, rest, find?_slash, direct, path, ne_eq,
    not_true_eq_false, if_false]
  split
  · rfl
  · cases port : u.port with
    | none =>
        rw [hostAndPort_host g.proxyport port]
        by_cases room : u.host.length < MAXHOSTNAMELEN
        · have roomy : u.Roomy := ⟨room, by simp [port]⟩
          simp only [copied, if_pos room, if_pos roomy, HttpUrl.built, HttpUrl.portNumber, port]
          rfl
        · have tight : ¬ u.Roomy := fun roomy => room roomy.host
          simp only [copied, if_neg room, if_neg tight]
          rfl
    | some p =>
        rw [hostAndPort_port g.proxyport port]
        by_cases room : u.host.length < MAXHOSTNAMELEN
        · by_cases short : p.length < tmpSize
          · have roomy : u.Roomy := ⟨room, by simpa [port] using short⟩
            simp only [copied, if_pos room, if_pos short, if_pos roomy, HttpUrl.built,
              HttpUrl.portNumber, port]
            rfl
          · have tight : ¬ u.Roomy := fun roomy => short (roomy.port p (by rw [port]; rfl))
            simp only [copied, if_pos room, if_neg short, if_neg tight]
            rfl
        · have tight : ¬ u.Roomy := fun roomy => room roomy.host
          simp only [copied, if_neg room, if_neg tight]
          rfl

/-- What gets behind the tests is an URL. -/
theorem exists_text (http : (url.take 7).map tolower = bytes "http://") {slash : Nat}
    (found : find? (bytes "/") (url.drop 7) = some slash) : ∃ u : HttpUrl, url = u.text := by
  have member : (47 : UInt8) ∈ url.drop 7 := by
    have inside := (find?_some found).2
    rw [show bytes "/" = [47] by decide] at inside
    exact List.mem_of_mem_drop (inside.subset List.mem_cons_self)
  obtain ⟨authority, path, rest, noSlash⟩ := List.eq_append_cons_of_mem member
  have whole : url = url.take 7 ++ (authority ++ 47 :: path) := by
    rw [← rest, List.take_append_drop]
  by_cases colon : (58 : UInt8) ∈ authority
  · obtain ⟨host, p, rfl, noColon⟩ := List.eq_append_cons_of_mem colon
    simp only [List.mem_append, List.mem_cons, not_or] at noSlash
    refine ⟨⟨url.take 7, host, some p, path, http, ⟨noColon, noSlash.1⟩, ?_⟩, whole⟩
    intro q given
    obtain rfl := Option.some.inj given
    exact noSlash.2.2
  · exact ⟨⟨url.take 7, authority, none, path, http, ⟨colon, noSlash⟩, by simp⟩, whole⟩

/-- The three tests that a returned or overrun call has passed. -/
theorem text_of_passed (notLong : buildRequest g url ≠ .error .tooLong)
    (notValid : buildRequest g url ≠ .error .notValid)
    (onlyHttp : buildRequest g url ≠ .error .onlyHttp)
    (noSlash : buildRequest g url ≠ .error .noSlash) : ∃ u : HttpUrl, url = u.text := by
  cases found : find? (bytes "://") url with
  | none => simp [buildRequest, found] at notValid
  | some delimiter =>
      by_cases long : url.length > 1500
      · simp [buildRequest, found, long] at notLong
      · by_cases http : (url.take 7).map tolower = bytes "http://"
        · have four : find? (bytes "://") (url.take 7 ++ url.drop 7) = some 4 :=
            find?_scheme http _
          rw [List.take_append_drop, found] at four
          obtain rfl := Option.some.inj four
          cases slash : find? (bytes "/") (url.drop 7) with
          | none => simp [buildRequest, found, long, http, slash] at noSlash
          | some i => exact exists_text http slash
        · refine absurd ?_ onlyHttp
          simp only [buildRequest, found, if_neg long, ne_eq, http, not_false_eq_true, if_true]

theorem length_requestText (g : Globals) (http10 : Nat) (host target : Bytes) :
    (requestText g http10 host target).length ≤ target.length + host.length + 97 := by
  have method : (methodName g.method).length ≤ 7 := by
    cases g.method <;> decide
  have version : (if http10 = 1 then bytes " HTTP/1.0"
      else if http10 = 2 then bytes " HTTP/1.1" else []).length ≤ 9 := by
    split
    · decide
    · split <;> decide
  have agent : (if http10 > 0 then bytes "User-Agent: WebBench 1.5\r\n" else []).length ≤ 26 := by
    split <;> decide
  have named : (if g.proxyhost = none ∧ http10 > 0 then bytes "Host: " ++ host ++ bytes "\r\n"
      else []).length ≤ host.length + 8 := by
    have ends : (bytes "Host: ").length = 6 ∧ (bytes "\r\n").length = 2 := by decide
    split
    · simp only [List.length_append, ends]
      omega
    · exact Nat.zero_le _
  have pragma : (if g.forceReload ∧ g.proxyhost ≠ none then bytes "Pragma: no-cache\r\n"
      else []).length ≤ 18 := by
    split <;> decide
  have connection : (if http10 > 1 then
        if ¬ g.keepAlive then bytes "Connection: close\r\n"
        else bytes "Connection: Keep-Alive\r\n"
      else []).length ≤ 24 := by
    split
    · split <;> decide
    · decide
  have last : (if http10 > 0 then bytes "\r\n" else []).length ≤ 2 := by
    split <;> decide
  have fixed : (bytes " ").length = 1 ∧ (bytes "\r\n").length = 2 := by decide
  simp only [requestText, List.length_append, fixed]
  omega

/-- The text of an URL that is not too long has room. -/
theorem length_built (short : u.text.length ≤ 1500) (roomy : u.Roomy) :
    (u.built g).request.length < REQUEST_SIZE := by
  have host : u.host.length < 64 := roomy.host
  have bound := length_requestText g (raised g) u.host u.target
  have inside : u.target.length ≤ u.text.length := by
    simp only [HttpUrl.text, List.length_append]
    omega
  have size : REQUEST_SIZE = 2048 := rfl
  have request : (u.built g).request = requestText g (raised g) u.host u.target := rfl
  rw [request]
  omega

/-- A request is built of exactly the URLs whose parts fit the buffers, and what is written behind
    a buffer comes of an URL with another part. -/
theorem buildRequest_iff (g : Globals) (url : Bytes) (direct : g.proxyhost = none) :
    (∀ built, buildRequest g url = .ok built ↔
      ∃ u : HttpUrl, url = u.text ∧ url.length ≤ 1500 ∧ u.Roomy ∧ built = u.built g) ∧
    (buildRequest g url = .error .overrun ↔
      ∃ u : HttpUrl, url = u.text ∧ url.length ≤ 1500 ∧ ¬ u.Roomy) ∧
    ∀ built, buildRequest g url = .ok built → built.request.length < REQUEST_SIZE := by
  have inverted : ∀ built, buildRequest g url = .ok built →
      ∃ u : HttpUrl, url = u.text ∧ url.length ≤ 1500 ∧ u.Roomy ∧ built = u.built g := by
    intro built ok
    obtain ⟨u, rfl⟩ : ∃ u : HttpUrl, url = u.text := by
      refine text_of_passed (g := g) ?_ ?_ ?_ ?_ <;> simp [ok]
    rw [buildRequest_text direct] at ok
    split at ok
    · cases ok
    · rename_i short
      split at ok
      · rename_i roomy
        exact ⟨u, rfl, by omega, roomy, (Except.ok.inj ok).symm⟩
      · cases ok
  refine ⟨fun built => ⟨inverted built, ?_⟩, ⟨?_, ?_⟩, fun built ok => ?_⟩
  · rintro ⟨u, rfl, short, roomy, rfl⟩
    rw [buildRequest_text direct, if_neg (by omega), if_pos roomy]
  · intro overrun
    obtain ⟨u, rfl⟩ : ∃ u : HttpUrl, url = u.text := by
      refine text_of_passed (g := g) ?_ ?_ ?_ ?_ <;> simp [overrun]
    rw [buildRequest_text direct] at overrun
    split at overrun
    · cases overrun
    · rename_i short
      split at overrun
      · cases overrun
      · rename_i tight
        exact ⟨u, rfl, by omega, tight⟩
  · rintro ⟨u, rfl, short, tight⟩
    rw [buildRequest_text direct, if_neg (by omega), if_neg tight]
  · obtain ⟨u, rfl, short, roomy, rfl⟩ := inverted built ok
    exact length_built short roomy

/-- A host of 64 bytes, which leaves no room for the zero behind it. -/
def longHost : Bytes := bytes "http://" ++ List.replicate 64 97 ++ bytes "/"

theorem buildRequest_iff_longHost : buildRequest {} longHost = .error .overrun ∧
    ∃ u : HttpUrl, longHost = u.text ∧ longHost.length ≤ 1500 ∧ ¬ u.Roomy := by
  have overrun : buildRequest {} longHost = .error .overrun := by decide +kernel
  exact ⟨overrun, (buildRequest_iff {} longHost rfl).2.1.mp overrun⟩

end Url

end Corio.WebBench
