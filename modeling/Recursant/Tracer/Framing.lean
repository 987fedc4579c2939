import Recursant.Tracer.Relay

/-!
# One message out of one message

What the tracer owes to a client for a response with a framed body, and when it pays.
-/

namespace Recursant.Tracer

/-! ## Deliveries of a response -/

/-- The bytes that a round takes from upstream. -/
def Wake.bytes : Wake → Text
  | .ready .piped (.sent bytes _) => bytes
  | .ready .quiet (.sent bytes _) => bytes
  | _ => []

/-- The round sees that upstream has closed. -/
def Wake.closes : Wake → Bool
  | .ready .piped .eof => true
  | .ready .quiet .eof => true
  | _ => false

/-- The client stays and takes what it gets, and nothing fails. -/
def Wake.smooth : Wake → Bool
  | .failed => false
  | .ready .gone _ => false
  | .ready _ .failed => false
  | .ready _ (.sent _ taken) => taken
  | _ => true

def received (wakes : List Wake) : Text := wakes.flatMap Wake.bytes

/-- Upstream sends the response and closes behind it; `recv` splits it in any way. -/
structure Delivery.Of (d : Delivery) (r : Response) : Prop where
  fits : r.head.bytes.length + d.leftover.length ≤ headBuf
  sent : d.leftover ++ received d.wakes <+: r.body.bytes
  rounds : ∀ w ∈ d.wakes, w.bytes.length ≤ relayChunk
  closes : ∀ before w after, d.wakes = before ++ w :: after → w.closes = true →
    d.leftover ++ received before = r.body.bytes

structure Delivery.Smooth (d : Delivery) : Prop where
  headTaken : d.headTaken = true
  leftoverTaken : d.leftoverTaken = true
  rounds : ∀ w ∈ d.wakes, w.smooth = true

/-- The response was sent to its end. -/
structure Delivery.Complete (d : Delivery) (r : Response) : Prop where
  delivers : d.Of r
  smooth : d.Smooth
  closed : ∃ w ∈ d.wakes, w.closes = true

def Status.written : Status → Text
  | .running r => r.written
  | .ended _ written => written

/-- The head and the last byte of the body have gone out; a body that the close ends is over when
that was seen. -/
def Relayed (r : Response) (d : Delivery) : Prop :=
  ∃ out ri, buildDownstreamHead r.head.bytes (headBuf + 64) = some (out, ri) ∧
    (relayResponse r.head.bytes d).written = out ++ r.body.bytes ∧
    ∀ content, r.body = .untilClose content → ∃ w ∈ d.wakes, w.closes = true

/-- The response is relayed as one well-framed message. -/
structure Faithful (r : Response) : Prop where
  framed : ∀ d : Delivery, d.Of r → ∀ written, relayResponse r.head.bytes d = .ended 0 written →
    ∃ q : Response, q.bytes = written ∧ q.content = r.content
  completed : ∀ d : Delivery, d.Of r → d.Smooth →
    ((∃ written, relayResponse r.head.bytes d = .ended 0 written) ↔ Relayed r d)
  outcome : ∀ d e : Delivery, d.Complete r → e.Complete r →
    relayResponse r.head.bytes d = relayResponse r.head.bytes e
  wrapless : ∀ d : Delivery, d.Of r → d.headTaken = true →
    ∀ out ri, buildDownstreamHead r.head.bytes (headBuf + 64) = some (out, ri) → ri.chunked = true →
    Wrapless {} (d.leftover ++ received d.wakes)

/-- The head is longer than the buffer, or one that `build_downstream_head` does not accept. -/
def Refused (r : Response) : Prop :=
  headBuf < r.head.bytes.length ∨ r.head.bytes.length < 12 ∨ r.head.bytes.take 5 ≠ text "HTTP/" ∨
    ∃ f ∈ r.head.fields, f.is "content-length" = true ∧ Unreadable r.content.length f.value

/-! ## Refusals -/

theorem refused_iff {r : Response} (hfits : r.head.bytes.length ≤ headBuf) :
    Refused r ↔ buildDownstreamHead r.head.bytes (headBuf + 64) = none := by
  have hlengths : (∃ f ∈ r.head.fields, f.is "content-length" = true ∧
      Unreadable r.content.length f.value) ↔
      ∃ f ∈ r.head.fields, f.is "content-length" = true ∧ contentLength f.bytes = none := by
    apply exists_congr
    intro f
    apply and_congr_right
    intro hf
    apply and_congr_right
    intro hname
    obtain ⟨head, body, hdescribed⟩ := r
    cases body with
    | sized content =>
        have hfield := contentLength_field hname (hdescribed.2.1 f hf hname)
        constructor
        · exact hfield.1
        · intro hnone
          by_contra hreadable
          rw [hfield.2 hreadable] at hnone
          cases hnone
    | chunked chunks last =>
        rw [hdescribed.2.2 f hf] at hname
        cases hname
    | untilClose content =>
        rw [(hdescribed f hf).1] at hname
        cases hname
  rw [buildDownstreamHead_none_iff hfits]
  unfold Refused
  rw [hlengths, or_iff_right (not_lt.mpr hfits)]

theorem relayResponse_none {r : Response}
    (h : buildDownstreamHead r.head.bytes (headBuf + 64) = none) (d : Delivery) :
    relayResponse r.head.bytes d = .ended (-1) [] := by
  unfold relayResponse
  rw [h]

theorem faithful_of_refused {r : Response} (h : Refused r) : Faithful r := by
  -- a delivery is one behind a head that was read
  have hnone : ∀ {d : Delivery}, d.Of r →
      buildDownstreamHead r.head.bytes (headBuf + 64) = none := by
    intro d hd
    have hfits := hd.fits
    exact (refused_iff (by omega)).mp h
  constructor
  · intro d hd written hended
    rw [relayResponse_none (hnone hd)] at hended
    cases hended
  · intro d hd _
    rw [relayResponse_none (hnone hd)]
    constructor
    · rintro ⟨written, hended⟩
      cases hended
    · rintro ⟨out, ri, hbuilt, -⟩
      rw [hnone hd] at hbuilt
      cases hbuilt
  · intro d e hd he
    rw [relayResponse_none (hnone hd.delivers), relayResponse_none (hnone he.delivers)]
  · intro d hd _ out ri hbuilt
    rw [hnone hd] at hbuilt
    cases hbuilt

/-! ## A delivery byte by byte -/

def byteWake (c : Byte) : Wake := .ready .quiet (.sent [c] true)

/-- Nothing comes with the head, and every `recv` gives one byte. -/
def bytewise (bytes : Text) : Delivery :=
  ⟨true, [], true, bytes.map byteWake ++ [.ready .quiet .eof]⟩

theorem received_bytes (bytes : Text) : received (bytes.map byteWake) = bytes := by
  unfold received
  rw [List.flatMap_map]
  exact List.flatMap_pure_eq_map id bytes |>.trans (List.map_id bytes)

theorem bytewise_received (bytes : Text) :
    (bytewise bytes).leftover ++ received (bytewise bytes).wakes = bytes := by
  show received (bytes.map byteWake ++ [.ready .quiet .eof]) = bytes
  unfold received
  rw [List.flatMap_append]
  show received (bytes.map byteWake) ++ [] = bytes
  rw [received_bytes, List.append_nil]

theorem bytewise_of {r : Response} (hfits : r.head.bytes.length ≤ headBuf) :
    (bytewise r.body.bytes).Of r where
  fits := hfits
  sent := by
    rw [bytewise_received]
  rounds := by
    intro w hw
    rcases List.mem_append.mp hw with hw | hw
    · obtain ⟨c, -, rfl⟩ := List.mem_map.mp hw
      show 1 ≤ 65536
      decide
    · rw [List.mem_singleton.mp hw]
      exact Nat.zero_le _
  closes := by
    intro before w after hsplit hcloses
    -- only the last round closes
    have hbefore : before = r.body.bytes.map byteWake := by
      rcases List.append_eq_append_iff.mp hsplit with ⟨more, hmore, hlast⟩ | ⟨more, hmore, hlast⟩
      · cases more with
        | nil => rw [hmore, List.append_nil]
        | cons v more =>
            have hin := List.append_ne_nil_of_right_ne_nil more (List.cons_ne_nil w after)
            exact absurd (List.cons.inj hlast).2.symm hin
      · cases more with
        | nil => exact (List.append_nil before).symm.trans hmore.symm
        | cons v more =>
            rw [List.cons_append] at hlast
            have hv : w ∈ r.body.bytes.map byteWake := by
              rw [hmore, (List.cons.inj hlast).1]
              exact List.mem_append_right before List.mem_cons_self
            obtain ⟨c, -, rfl⟩ := List.mem_map.mp hv
            cases hcloses
    rw [hbefore, received_bytes]
    rfl

theorem bytewise_smooth (bytes : Text) : (bytewise bytes).Smooth where
  headTaken := rfl
  leftoverTaken := rfl
  rounds := by
    intro w hw
    rcases List.mem_append.mp hw with hw | hw
    · obtain ⟨c, -, rfl⟩ := List.mem_map.mp hw
      rfl
    · rw [List.mem_singleton.mp hw]
      rfl

/-! ## The framing that is read -/

/-- What the head of a response says of its body. -/
def Reads (ri : RespInfo) : Body → Prop
  | .sized content => ri.hasCl = true ∧ ri.chunked = false ∧ ri.cl = content.length
  | .chunked _ _ => ri.hasCl = false ∧ ri.chunked = true
  | .untilClose _ => ri.hasCl = false ∧ ri.chunked = false

theorem reads_of_built {r : Response} {out : Text} {ri : RespInfo}
    (h : buildDownstreamHead r.head.bytes (headBuf + 64) = some (out, ri)) : Reads ri r.body := by
  obtain ⟨-, draft, hdraft, rfl⟩ := buildDownstreamHead_some h
  have hhas := hdraft.hasCl
  have hchunked := hdraft.chunked
  rw [Bool.false_or] at hhas hchunked
  obtain ⟨head, body, hdescribed⟩ := r
  cases body with
  | sized content =>
      obtain ⟨⟨f, hf, hname⟩, hvalues, hcoding⟩ := hdescribed
      have hcl : draft.2.hasCl = true := by
        rw [hhas]
        exact List.any_eq_true.mpr ⟨f, hf, hname⟩
      refine ⟨hcl, ?_, ?_⟩
      · rw [hchunked]
        apply List.any_eq_false.mpr
        intro g hg
        rw [hcoding g hg, Bool.false_and]
        exact Bool.false_ne_true
      · apply hdraft.cl content.length nofun _ hcl
        intro g hg hname v hv
        have hfield := contentLength_field hname (hvalues g hg hname)
        by_cases hreadable : Unreadable content.length g.value
        · rw [hfield.1 hreadable] at hv
          cases hv
        · rw [hfield.2 hreadable] at hv
          exact (Option.some.inj hv).symm
  | chunked chunks last =>
      obtain ⟨⟨f, hf, hname⟩, hvalues, hlengths⟩ := hdescribed
      refine ⟨?_, ?_⟩
      · rw [hhas]
        apply List.any_eq_false.mpr
        intro g hg
        rw [hlengths g hg]
        exact Bool.false_ne_true
      · rw [hchunked]
        refine List.any_eq_true.mpr ⟨f, hf, ?_⟩
        rw [hname, namesChunked_field hname (hvalues f hf hname)]
        rfl
  | untilClose content =>
      refine ⟨?_, ?_⟩
      · rw [hhas]
        apply List.any_eq_false.mpr
        intro g hg
        rw [(hdescribed g hg).1]
        exact Bool.false_ne_true
      · rw [hchunked]
        apply List.any_eq_false.mpr
        intro g hg
        rw [(hdescribed g hg).2, Bool.false_and]
        exact Bool.false_ne_true

/-! ## The rounds of a delivery byte by byte -/

theorem rounds_ended (ri : RespInfo) (code : Int) (written : Text) (wakes : List Wake) :
    wakes.foldl (round ri) (.ended code written) = .ended code written := by
  induction wakes with
  | nil => rfl
  | cons w wakes ih => exact ih

theorem rounds_sized {ri : RespInfo} (hcl : ri.hasCl = true) (hchunked : ri.chunked = false)
    (content : Text) (k : Tracker) (written : Text) (more : List Wake) :
    (content.map byteWake ++ more).foldl (round ri) (goOn ri ⟨content.length, k, written⟩) =
      .ended 0 (written ++ content) := by
  induction content generalizing written with
  | nil =>
      have hover : goOn ri ⟨([] : Text).length, k, written⟩ = .ended 0 written :=
        if_pos ⟨hcl, rfl⟩
      rw [hover, rounds_ended, List.append_nil]
  | cons c content ih =>
      have hon : goOn ri ⟨(c :: content).length, k, written⟩ =
          .running ⟨(c :: content).length, k, written⟩ := by
        unfold goOn
        rw [if_neg, if_neg]
        · rw [hchunked]
          exact fun h => Bool.false_ne_true h.1
        · rw [List.length_cons]
          push_cast
          omega
      have hround : round ri (.running ⟨(c :: content).length, k, written⟩) (byteWake c) =
          goOn ri ⟨content.length, k, written ++ [c]⟩ := by
        show forward ri [c] true _ = _
        have hleft : ((c :: content).length : Int) - [c].length = content.length := by simp
        have hsound : ¬ (content.length : Int) < 0 := by omega
        unfold forward
        dsimp only
        rw [hleft]
        simp [hchunked, hcl, hsound]
      rw [hon, List.map_cons, List.cons_append, List.foldl_cons, hround, ih]
      simp

theorem rounds_untilClose {ri : RespInfo} (hcl : ri.hasCl = false) (hchunked : ri.chunked = false)
    (content : Text) (r : Relay) :
    (content.map byteWake).foldl (round ri) (.running r) =
      .running { r with written := r.written ++ content } := by
  induction content generalizing r with
  | nil => simp
  | cons c content ih =>
      have hround : round ri (.running r) (byteWake c) =
          .running { r with written := r.written ++ [c] } := by
        show forward ri [c] true r = _
        simp [forward, goOn, hcl, hchunked]
      rw [List.map_cons, List.foldl_cons, hround, ih]
      simp

/-- Until the framing ends or breaks, bytes go through. -/
theorem rounds_chunked {ri : RespInfo} (hcl : ri.hasCl = false) (hchunked : ri.chunked = true)
    (bytes : Text) (r : Relay) (hend : (track r.tracker bytes).state ≠ .finished)
    (hsound : (track r.tracker bytes).state ≠ .error) :
    (bytes.map byteWake).foldl (round ri) (.running r) =
      .running ⟨r.clRemaining, track r.tracker bytes, r.written ++ bytes⟩ := by
  induction bytes generalizing r with
  | nil => simp [track]
  | cons c bytes ih =>
      -- both ends absorb what follows
      have hon : (track r.tracker [c]).state ≠ .finished := by
        intro hstate
        apply hend
        rw [show c :: bytes = [c] ++ bytes by rfl, track_append, track_finished hstate, hstate]
      have hgood : (track r.tracker [c]).state ≠ .error := by
        intro hstate
        apply hsound
        rw [show c :: bytes = [c] ++ bytes by rfl, track_append]
        exact track_error hstate bytes
      have hround : round ri (.running r) (byteWake c) =
          .running ⟨r.clRemaining, track r.tracker [c], r.written ++ [c]⟩ := by
        show forward ri [c] true r = _
        simp [forward, goOn, hcl, hchunked, hon, hgood]
      rw [List.map_cons, List.foldl_cons, hround, ih _ hend hsound]
      simp [track]

/-- A response whose head is accepted is relayed up to its last byte, at most. -/
theorem bytewise_relayed {r : Response} {out : Text} {ri : RespInfo}
    (hbuilt : buildDownstreamHead r.head.bytes (headBuf + 64) = some (out, ri))
    (hwrapless : ri.chunked = true → Wrapless {} r.body.bytes) :
    ∃ body, relayResponse r.head.bytes (bytewise r.body.bytes) = .ended 0 (out ++ body) ∧
      r.content.length ≤ body.length := by
  have hreads := reads_of_built hbuilt
  have hrelay : relayResponse r.head.bytes (bytewise r.body.bytes) =
      (r.body.bytes.map byteWake ++ [Wake.ready .quiet .eof]).foldl (round ri)
        (goOn ri { clRemaining := if ri.hasCl then ri.cl else -1, written := out }) := by
    unfold relayResponse
    rw [hbuilt]
    rfl
  rw [hrelay]
  unfold Response.content
  cases hbody : r.body with
  | sized content =>
      rw [hbody] at hreads
      obtain ⟨hcl, hchunked, hlength⟩ := hreads
      refine ⟨content, ?_, le_rfl⟩
      rw [if_pos hcl, hlength]
      exact rounds_sized hcl hchunked content {} out _
  | untilClose content =>
      rw [hbody] at hreads
      obtain ⟨hcl, hchunked⟩ := hreads
      refine ⟨content, ?_, le_rfl⟩
      have hon : ∀ s : Relay, goOn ri s = .running s := by
        intro s
        simp [goOn, hcl, hchunked]
      rw [hon, List.foldl_append]
      unfold Body.bytes
      rw [rounds_untilClose hcl hchunked]
      show upstreamEof ri _ = _
      simp [upstreamEof, hcl, hchunked]
  | chunked chunks last =>
      rw [hbody] at hreads hwrapless
      obtain ⟨hcl, hchunked⟩ := hreads
      have hstate := track_chunked (hwrapless hchunked)
      refine ⟨chunks.flatMap Chunk.bytes ++ last.bytes ++ [13], ?_, ?_⟩
      · have hon : ∀ written, goOn ri { clRemaining := if ri.hasCl then ri.cl else -1, written } =
            .running { clRemaining := -1, written } := by
          intro written
          simp [goOn, hcl]
        have hbytes : (Body.chunked chunks last).bytes.map byteWake ++
            [Wake.ready .quiet .eof] = (chunks.flatMap Chunk.bytes ++ last.bytes).map byteWake ++
              byteWake 13 :: [byteWake 10, .ready .quiet .eof] := by
          simp [Body.bytes, crlf]
        rw [hon, hbytes, List.foldl_append, rounds_chunked hcl hchunked _ _ (by rw [hstate]; decide)
          (by rw [hstate]; decide), List.foldl_cons]
        have hround : round ri (.running ⟨-1, track {} (chunks.flatMap Chunk.bytes ++ last.bytes),
            out ++ (chunks.flatMap Chunk.bytes ++ last.bytes)⟩) (byteWake 13) =
            .ended 0 (out ++ (chunks.flatMap Chunk.bytes ++ last.bytes) ++ [13]) := by
          have hlast : (track (track {} (chunks.flatMap Chunk.bytes ++ last.bytes)) [13]).state =
              .finished := by
            show (chunkedStep _ 13).state = _
            unfold chunkedStep
            rw [hstate]
            rfl
          show forward ri [13] true _ = _
          simp [forward, goOn, hcl, hchunked, hlast]
        dsimp only at hround ⊢
        rw [hround, rounds_ended, List.append_assoc]
      · have hlengths := content_lt_chunked chunks last
        have hbytes : (Body.chunked chunks last).bytes.length =
            (chunks.flatMap Chunk.bytes ++ last.bytes).length + 2 := List.length_append
        rw [List.length_append, List.length_singleton]
        omega

/-! ## What goes out is no response -/

/-- The last line of the head is behind its end. -/
theorem not_framed {r : Response} {out body : Text} {ri : RespInfo}
    (hbuilt : buildDownstreamHead r.head.bytes (headBuf + 64) = some (out, ri))
    (hlength : r.content.length ≤ body.length) :
    ¬ ∃ q : Response, q.bytes = out ++ body ∧ q.content = r.content := by
  rintro ⟨q, hbytes, hcontent⟩
  obtain ⟨hout, -⟩ := buildDownstreamHead_some hbuilt
  have hsame : q.head.bytes ++ q.body.bytes = r.head.passed.bytes ++ (closing ++ body) := by
    rw [← List.append_assoc, ← hout]
    exact hbytes
  obtain ⟨hhead, hbody⟩ := Head.bytes_inj hsame
  have hlong : r.content.length < q.body.bytes.length := by
    have hclosing : closing.length = 21 := by decide
    rw [hbody, List.length_append]
    omega
  rw [← hcontent] at hlong
  have hdescribed := q.described
  unfold Response.content at hlong
  cases hq : q.body with
  | sized content =>
      rw [hq] at hlong
      exact absurd hlong (lt_irrefl _)
  | untilClose content =>
      rw [hq] at hlong
      exact absurd hlong (lt_irrefl _)
  | chunked chunks last =>
      -- the line that names the coding was dropped
      rw [hq, hhead] at hdescribed
      obtain ⟨⟨f, hf, hname⟩, -⟩ := hdescribed
      have hkept := (List.mem_filter.mp hf).2
      unfold Field.kept at hkept
      rw [hname] at hkept
      cases hkept

theorem not_faithful {r : Response} (h : ¬ Refused r) : ¬ Faithful r := by
  intro hfaithful
  have hfits : r.head.bytes.length ≤ headBuf := not_lt.mp fun hlong => h (.inl hlong)
  rw [refused_iff hfits] at h
  obtain ⟨⟨out, ri⟩, hbuilt⟩ := Option.ne_none_iff_exists'.mp h
  have hof := bytewise_of hfits
  have hwrapless : ri.chunked = true → Wrapless {} r.body.bytes := by
    intro hchunked
    have hall := hfaithful.wrapless _ hof rfl out ri hbuilt hchunked
    rwa [bytewise_received] at hall
  obtain ⟨body, hended, hlength⟩ := bytewise_relayed hbuilt hwrapless
  exact not_framed hbuilt hlength (hfaithful.framed _ hof _ hended)

/-- A response is relayed as one well-framed message exactly if it is not relayed at all. -/
theorem one_message_iff (r : Response) : Faithful r ↔ Refused r := by
  constructor
  · intro hfaithful
    by_contra hrefused
    exact not_faithful hrefused hfaithful
  · exact faithful_of_refused

/-- Two bytes with their length. -/
def hiResponse : Response where
  head :=
    { start := text "HTTP/1.1 200 OK"
      fields := [
        { name := text "Content-Length"
          value := text " 2"
          named := by decide
          plain := by decide
          unbroken := ⟨⟨by decide, by decide⟩, by decide, by decide⟩ }]
      unbroken := ⟨by decide, by decide⟩ }
  body := .sized (text "hi")
  described := by
    refine ⟨⟨_, List.mem_cons_self, by decide⟩, ?_, by decide⟩
    intro f hf _
    rw [List.mem_singleton.mp hf]
    refine ⟨[32], [50], [], by decide, fun c hc => .inl (List.mem_singleton.mp hc), by decide,
      fun c hc => ?_, by decide⟩
    rw [List.mem_singleton.mp hc]
    decide

/-- The client gets the end of the head before its last line, and `hi` as the end of four lines. -/
theorem close_behind_the_head :
    hiResponse.bytes =
        text "HTTP/1.1 200 OK" ++ crlf ++ text "Content-Length: 2" ++ crlf ++ crlf ++ text "hi" ∧
      relayResponse hiResponse.head.bytes (bytewise hiResponse.body.bytes) =
        .ended 0 (text "HTTP/1.1 200 OK" ++ crlf ++ text "Content-Length: 2" ++ crlf ++ crlf ++
          text "Connection: close" ++ crlf ++ crlf ++ text "hi") ∧
      ¬ Faithful hiResponse := by
  refine ⟨by decide +kernel, by decide +kernel, ?_⟩
  apply not_faithful
  rintro (hlong | hshort | hname | ⟨f, hf, -, hvalue⟩)
  · exact absurd hlong (by decide +kernel)
  · exact absurd hshort (by decide +kernel)
  · exact absurd hname (by decide +kernel)
  · rw [List.mem_singleton.mp hf] at hvalue
    rcases hvalue with hlong | ⟨c, hc, hblank⟩ | hbig
    · exact absurd hlong (by decide +kernel)
    · cases hc
      exact absurd hblank (by decide)
    · exact absurd hbig (by decide +kernel)

end Recursant.Tracer
