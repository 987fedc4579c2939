import Recursant.Tracer.Head

/-!
# The head of a request

`parse_request_head`, `route_status` and the bare status replies.  The texts of a parsed head are
the C strings that the code goes on with: they end at a NUL byte.
-/

namespace Recursant.Tracer

/-- The bytes of a buffer up to its first NUL. -/
def upToNul (t : Text) : Text := t.takeWhile (· ≠ 0)

/-- `req_info` -/
structure ReqInfo where
  method : Text := []
  path : Text := []
  authorization : Text := []
  hasCl : Bool := false
  cl : Int := 0
  chunked : Bool := false
  deriving DecidableEq

/-- `-1` and `-2` of `parse_request_head`. -/
inductive Unparsed where
  | malformed
  | unsupported
  deriving DecidableEq

/-! ## Header lines -/

/-- A line without its end. -/
def bareLine (line : Text) : Text :=
  let body := line.dropLast
  if body.getLast? = some 13 then body.dropLast else body

/-- A value of `content-length` that a `long` holds. -/
def lengthValue (value : Text) : Option Int :=
  if value = [] ∨ 32 ≤ value.length then none
  else
    let conversion := strtol (upToNul value)
    if conversion.range ∨ conversion.rest ≠ [] ∨ conversion.value < 0 then none
    else some conversion.value

/-- What the field does to the request; the last one of a name is kept. -/
def requestField (name value : Text) (ri : ReqInfo) : Option ReqInfo :=
  if caseEq name "authorization" then
    if 1024 ≤ value.length then none else some { ri with authorization := upToNul value }
  else if caseEq name "content-length" then
    (lengthValue value).map fun v => { ri with hasCl := true, cl := v }
  else if caseEq name "transfer-encoding" then
    if caseEq (value.take 7) "chunked" then some { ri with chunked := true } else none
  else some ri

/-- One header line, without its end. -/
def requestLine (line : Text) (ri : ReqInfo) : Option ReqInfo :=
  if line.contains 58 then
    let value := ((line.dropWhile (· ≠ 58)).drop 1).dropWhile (· = 32)
    requestField (line.takeWhile (· ≠ 58)) value ri
  else none

/-- The lines up to the empty one. -/
def requestLines (ri : ReqInfo) : List Text → Option ReqInfo
  | [] => some ri
  | line :: lines =>
      if bareLine line = [] then some ri
      else (requestLine (bareLine line) ri).bind fun ri => requestLines ri lines

/-! ## The head -/

/-- `parse_request_head`.  The words of the first line end at blanks, wherever these are. -/
def parseRequestHead (head : Text) : Except Unparsed ReqInfo :=
  let method := head.takeWhile (· ≠ 32)
  if !head.contains 32 || method = [] || 8 ≤ method.length then .error .malformed
  else
    let rest := (head.dropWhile (· ≠ 32)).drop 1
    let path := rest.takeWhile (· ≠ 32)
    if !rest.contains 32 || path = [] || 160 ≤ path.length then .error .malformed
    else
      let version := (rest.dropWhile (· ≠ 32)).drop 1
      if !(text "HTTP/1.1").isPrefixOf version && !(text "HTTP/1.0").isPrefixOf version then
        .error .unsupported
      else
        match linesFrom [] version with
        | [] => .error .malformed
        | _ :: lines =>
            match requestLines { method := upToNul method, path := upToNul path } lines with
            | none => .error .malformed
            | some ri => .ok ri

def chatPath : Text := "/v1/chat/completions"

def modelsPath : Text := "/v1/models"

/-- `route_status`; zero for a route. -/
def routeStatus (ri : ReqInfo) : Nat :=
  if ri.path = chatPath then if ri.method = text "POST" then 0 else 405
  else if ri.path = modelsPath then if ri.method = text "GET" then 0 else 405
  else 404

/-- `is_post` -/
def ReqInfo.isPost (ri : ReqInfo) : Bool := ri.method = text "POST"

/-! ## Bare replies -/

/-- `status_text` -/
def statusText (code : Nat) : Text :=
  match code with
  | 200 => "OK"
  | 400 => "Bad Request"
  | 404 => "Not Found"
  | 405 => "Method Not Allowed"
  | 413 => "Payload Too Large"
  | 502 => "Bad Gateway"
  | 503 => "Service Unavailable"
  | 504 => "Gateway Timeout"
  | _ => "Error"

/-- What `send_simple` writes; its buffer has room for every code of the tracer. -/
def simpleReply (code : Nat) : Text :=
  text "HTTP/1.1 " ++ printDigits code ++ text " " ++ statusText code ++ crlf ++
    text "Content-Length: 0" ++ crlf ++ text "Connection: close" ++ crlf ++ crlf

/-! ## The length of a body -/

theorem lengthValue_nonneg {value : Text} {v : Int} (h : lengthValue value = some v) : 0 ≤ v := by
  unfold lengthValue at h
  dsimp only at h
  split at h
  · cases h
  · split at h
    · cases h
    next hgood =>
        cases h
        by_contra hneg
        exact hgood (.inr (.inr (by omega)))

theorem requestField_nonneg {name value : Text} {ri ri' : ReqInfo} (hri : 0 ≤ ri.cl)
    (h : requestField name value ri = some ri') : 0 ≤ ri'.cl := by
  unfold requestField at h
  split at h
  · split at h
    · cases h
    · cases h
      exact hri
  · split at h
    · obtain ⟨v, hv, rfl⟩ := Option.map_eq_some_iff.mp h
      exact lengthValue_nonneg hv
    · split at h
      · split at h
        · cases h
          exact hri
        · cases h
      · cases h
        exact hri

theorem requestLines_nonneg {ri ri' : ReqInfo} {lines : List Text} (hri : 0 ≤ ri.cl)
    (h : requestLines ri lines = some ri') : 0 ≤ ri'.cl := by
  induction lines generalizing ri with
  | nil => exact Option.some.inj h ▸ hri
  | cons line lines ih =>
      rw [requestLines] at h
      split at h
      · exact Option.some.inj h ▸ hri
      · obtain ⟨next, hnext, hrest⟩ := Option.bind_eq_some_iff.mp h
        refine ih ?_ hrest
        unfold requestLine at hnext
        split at hnext
        · exact requestField_nonneg hri hnext
        · cases hnext

/-- A head that is parsed gives no negative length. -/
theorem parseRequestHead_nonneg {head : Text} {ri : ReqInfo}
    (h : parseRequestHead head = .ok ri) : 0 ≤ ri.cl := by
  unfold parseRequestHead at h
  dsimp only at h
  split at h
  · cases h
  · split at h
    · cases h
    · split at h
      · cases h
      · split at h
        · cases h
        · split at h
          · cases h
          next hlines =>
              cases h
              exact requestLines_nonneg le_rfl hlines

/-- A request that is routed is one of two. -/
theorem routeStatus_eq_zero {ri : ReqInfo} (h : routeStatus ri = 0) :
    (ri.method = text "POST" ∧ ri.path = chatPath) ∨
      (ri.method = text "GET" ∧ ri.path = modelsPath) := by
  unfold routeStatus at h
  split at h
  next hpath =>
      split at h
      next hmethod => exact .inl ⟨hmethod, hpath⟩
      next => cases h
  next =>
      split at h
      next hpath =>
          split at h
          next hmethod => exact .inr ⟨hmethod, hpath⟩
          next => cases h
      next => cases h

end Recursant.Tracer
