import Provium.Protocol.Frame

/-! A connection read call by call. What a `FrameReader` holds between two calls, together with
the bytes still to come, is always exactly what the peer is owed: the frames of the messages not
yet returned. So a timeout costs nothing wherever it falls. -/
namespace Provium.Protocol
open Lib

/-- A header and the body it announces. -/
def frame (body : List UInt8) : List UInt8 := toBeBytes headerLen body.length++body

@[simp] theorem length_frame (body : List UInt8) : (frame body).length = 4+body.length := by
  simp [frame,headerLen]

theorem length_resize (l : List UInt8) (n : ℕ) : (resize l n).length = n := by
  simp only [resize,List.length_append,List.length_take,List.length_replicate]
  omega

theorem resize_self (l : List UInt8) : resize l l.length = l := by simp [resize]

/-- The state of a reader between calls, `owed` being what it holds of the current frame and all
that is still to come. -/
structure Resumable (max : ℕ) (owed : List UInt8) (r : FrameReader) (t : Transport) : Prop where
  cap : r.maxBodyBytes = max
  header_length : r.header.length = headerLen
  header_le : r.headerRead ≤ headerLen
  body_le : r.bodyRead ≤ r.body.length
  body_sized : r.bodyRead ≠ 0 →
    r.headerRead = headerLen ∧ r.body.length = fromBeBytes r.header
  held : r.header.take r.headerRead++(r.body.take r.bodyRead++t.rest) = owed

namespace Resumable
variable {max : ℕ} {owed body more : List UInt8} {r : FrameReader} {t : Transport}

theorem new (max : ℕ) (t : Transport) : Resumable max t.rest (FrameReader.new max) t :=
  ⟨rfl,rfl,Nat.zero_le _,Nat.zero_le _,fun h => absurd rfl h,rfl⟩

theorem length_header_take (h : Resumable max owed r t) :
    (r.header.take r.headerRead).length = r.headerRead := by
  rw [List.length_take,h.header_length]
  exact Nat.min_eq_left h.header_le

theorem length_body_take (h : Resumable max owed r t) :
    (r.body.take r.bodyRead).length = r.bodyRead := by
  rw [List.length_take]
  exact Nat.min_eq_left h.body_le

/-- A complete header is the header of the frame that is due. -/
theorem header_complete (h : Resumable max (frame body++more) r t) (hr : r.headerRead = headerLen) :
    r.header = toBeBytes headerLen body.length ∧ r.body.take r.bodyRead++t.rest = body++more := by
  have hheld := h.held
  rw [hr,← h.header_length,List.take_length,frame,List.append_assoc] at hheld
  apply List.append_inj hheld
  rw [h.header_length,length_toBeBytes]

/-- Nothing beyond the frame that is due has been taken from the transport. -/
theorem more_suffix (h : Resumable max (frame body++more) r t) (hb : body.length < 256^4) :
    more <:+ t.rest := by
  have hlen := congrArg List.length h.held
  simp only [List.length_append,h.length_header_take,h.length_body_take,length_frame] at hlen
  have hle : r.headerRead+r.bodyRead ≤ 4+body.length := by
    have hheader := h.header_le
    by_cases h0 : r.bodyRead = 0
    · rw [h0]
      exact hheader.trans (Nat.le_add_right _ _)
    · obtain ⟨hr,hsized⟩ := h.body_sized h0
      have hbody := h.body_le
      rw [(h.header_complete hr).1,headerLen,fromBeBytes_toBeBytes hb] at hsized
      exact Nat.add_le_add hheader (hsized ▸ hbody)
  have howed : more <:+ frame body++more := List.suffix_append _ _
  have hrest : t.rest <:+ frame body++more := by
    rw [← h.held,← List.append_assoc]
    exact List.suffix_append _ _
  apply List.suffix_of_suffix_length_le howed hrest
  omega

/-- The header part of a call keeps the books, however it ends. -/
theorem readFull_header {t' : Transport} {header : List UInt8} {headerRead : ℕ}
    {res : Except IoErrorKind Unit} (h : Resumable max owed r t)
    (hf : readFull t r.header r.headerRead = (res,t',header,headerRead)) :
    Resumable max owed { r with header, headerRead } t' := by
  have hle : r.headerRead ≤ r.header.length := by
    rw [h.header_length]
    exact h.header_le
  obtain ⟨h₁,h₂,h₃,h₄,-,-,-⟩ := readFull_spec hle hf
  rw [h.header_length] at h₁ h₃
  -- a body is begun only behind a complete header, and then this part reads nothing
  by_cases h0 : r.bodyRead = 0
  · refine ⟨h.cap,h₁,h₃,h.body_le,fun hc => absurd h0 hc,?_⟩
    have hheld := h.held
    simp only [h0,List.take_zero,List.nil_append] at hheld ⊢
    rw [h₄]
    exact hheld
  · obtain ⟨hr,hsized⟩ := h.body_sized h0
    have hfull : headerRead = headerLen := by omega
    rw [hr,hfull,← h.header_length,List.take_length,h.header_length,← h₁,List.take_length] at h₄
    obtain ⟨heq,hrest⟩ := List.append_inj h₄ (h₁.trans h.header_length.symm)
    subst heq
    refine ⟨h.cap,h₁,h₃,h.body_le,fun _ => ⟨hfull,hsized⟩,?_⟩
    have hheld := h.held
    simp only [hr,hfull,hrest] at hheld ⊢
    exact hheld

/-- The body buffer keeps what it has of the body when it is sized again. -/
theorem take_resize (h : Resumable max owed r t) :
    r.bodyRead ≤ (resize r.body (fromBeBytes r.header)).length ∧
      (resize r.body (fromBeBytes r.header)).take r.bodyRead = r.body.take r.bodyRead := by
  by_cases h0 : r.bodyRead = 0
  · simp [h0]
  · obtain ⟨-,hsized⟩ := h.body_sized h0
    rw [← hsized,resize_self]
    exact ⟨h.body_le,rfl⟩

/-- So does the body part. -/
theorem readFull_body {t' : Transport} {body : List UInt8} {bodyRead : ℕ}
    {res : Except IoErrorKind Unit} (h : Resumable max owed r t) (hr : r.headerRead = headerLen)
    (hf : readFull t (resize r.body (fromBeBytes r.header)) r.bodyRead = (res,t',body,bodyRead)) :
    Resumable max owed { r with body, bodyRead } t' := by
  obtain ⟨hle,htake⟩ := h.take_resize
  obtain ⟨h₁,h₂,h₃,h₄,-,-,-⟩ := readFull_spec hle hf
  rw [length_resize] at h₁ h₃
  refine ⟨h.cap,h.header_length,h.header_le,h₁ ▸ h₃,fun _ => ⟨hr,h₁⟩,?_⟩
  have hheld := h.held
  simp only [h₄,htake]
  exact hheld

end Resumable

/-- The results after which the caller may call the same reader again for the same frame. -/
def isTimeout {M : Type*} : Except FrameError M → Bool
  | .error (.io .wouldBlock) => true
  | .error (.io .timedOut) => true
  | _ => false

theorem readFull_timeout {t t' : Transport} {buf buf' : List UInt8} {total total' : ℕ}
    {e : IoErrorKind} (hle : total ≤ buf.length) (hok : .fail .other ∉ t.script)
    (h : readFull t buf total = (.error e,t',buf',total')) :
    (e = .wouldBlock ∨ e = .timedOut) ∧ t'.script.length < t.script.length := by
  obtain ⟨-,-,-,-,-,-,herr⟩ := readFull_spec hle h
  obtain ⟨hne,-,past,hpast⟩ := herr e rfl
  constructor
  · cases e with
    | interrupted => exact absurd rfl hne
    | wouldBlock => exact .inl rfl
    | timedOut => exact .inr rfl
    | other =>
      apply absurd _ hok
      rw [← hpast]
      simp
  · rw [← hpast,List.length_append,List.length_cons]
    omega

section Call
variable {M : Type*} {c : Codec M} {max : ℕ} {owed body more : List UInt8} {m : M}
variable {r r' : FrameReader} {t t' : Transport} {res : Except FrameError M}

/-- A call that timed out: what is owed is owed still, and one arrival is used up. -/
def Retry (max : ℕ) (owed : List UInt8) (t : Transport) (res : Except FrameError M)
    (r' : FrameReader) (t' : Transport) : Prop :=
  isTimeout res ∧ Resumable max owed r' t' ∧ t'.script.length < t.script.length

theorem Retry.of_io {e : IoErrorKind} (he : e = .wouldBlock ∨ e = .timedOut)
    (hr : Resumable max owed r' t') (hs : t'.script.length < t.script.length) :
    Retry (M := M) max owed t (.error (.io e)) r' t' := by
  refine ⟨?_,hr,hs⟩
  rcases he with rfl | rfl
  · rfl
  · rfl

/-- The header part of a call: it times out, or it has the whole header, or the stream is over. -/
theorem header_stage {hres : Except IoErrorKind Unit} {header : List UInt8} {headerRead : ℕ}
    (h : Resumable max owed r t) (hok : .fail .other ∉ t.script)
    (hf : readFull t r.header r.headerRead = (hres,t',header,headerRead)) :
    Resumable max owed { r with header, headerRead } t' ∧ t'.script <:+ t.script ∧
    (∀ e, hres = .error e →
      (e = .wouldBlock ∨ e = .timedOut) ∧ t'.script.length < t.script.length) ∧
    (hres = .ok () → headerRead = headerLen ∨ t'.rest = []) := by
  have hle : r.headerRead ≤ r.header.length := by
    rw [h.header_length]
    exact h.header_le
  obtain ⟨-,-,-,-,hs,hend,-⟩ := readFull_spec hle hf
  refine ⟨h.readFull_header hf,hs,?_,?_⟩
  · rintro e rfl
    exact readFull_timeout hle hok hf
  · intro hres
    rw [← h.header_length]
    exact hend hres

theorem Resumable.header_of_frame (h : Resumable max (frame body++more) r t)
    (hend : r.headerRead = headerLen ∨ t.rest = []) : r.headerRead = headerLen := by
  rcases hend with hr | hrest
  · exact hr
  · by_contra hne
    have h0 : r.bodyRead = 0 := by
      by_contra hb
      exact hne (h.body_sized hb).1
    have hlen := congrArg List.length h.held
    have hle := h.header_le
    simp only [List.length_append,h.length_header_take,h.length_body_take,length_frame,hrest,
      List.length_nil] at hlen
    simp only [headerLen] at hne hle
    omega

/-- The body part of a call: a timeout, or the message, and then not one byte further. -/
theorem readBody_frame (h : Resumable max (frame body++more) r t) (hr : r.headerRead = headerLen)
    (hcap : body.length ≤ max) (hb : body.length < 256^4) (hdec : c.decode body = .ok m)
    (hok : .fail .other ∉ t.script) (hread : FrameReader.readBody c r t = (res,r',t')) :
    t'.script <:+ t.script ∧ (Retry max (frame body++more) t res r' t' ∨
      res = .ok m ∧ Resumable max more r' t' ∧ t'.rest = more) := by
  obtain ⟨hheader,hbody⟩ := h.header_complete hr
  have hlen : fromBeBytes r.header = body.length := by
    rw [hheader]
    exact fromBeBytes_toBeBytes hb
  obtain ⟨hle,htake⟩ := h.take_resize
  have hfits : ¬r.maxBodyBytes < body.length := by
    rw [h.cap]
    exact Nat.not_lt.mpr hcap
  simp only [FrameReader.readBody,hlen,hfits,if_false] at hread
  rw [hlen] at hle htake
  split at hread
  · next e t₁ body₁ bodyRead hf =>
    cases hread
    obtain ⟨-,-,-,-,hs,-,-⟩ := readFull_spec hle hf
    obtain ⟨he,hlt⟩ := readFull_timeout hle hok hf
    rw [← hlen] at hf
    exact ⟨hs,.inl (Retry.of_io he (h.readFull_body hr hf) hlt)⟩
  · next t₁ body₁ bodyRead hf =>
    obtain ⟨h₁,h₂,h₃,h₄,hs,hend,-⟩ := readFull_spec hle hf
    rw [length_resize] at h₁ h₃ hend
    rw [htake,hbody] at h₄
    -- where the stream ends the body is complete, for the stream holds all of it
    have hfull : bodyRead = body.length := by
      rcases hend rfl with hfull | hrest
      · exact hfull
      · have hl := congrArg List.length h₄
        simp only [hrest,List.append_nil,List.length_append,List.length_take,h₁] at hl
        omega
    subst hfull
    rw [← h₁,List.take_length] at h₄
    obtain ⟨rfl,hrest⟩ := List.append_inj h₄ h₁
    simp only [Nat.lt_irrefl,if_false,hdec] at hread
    cases hread
    refine ⟨hs,.inr ⟨rfl,?_,hrest⟩⟩
    exact ⟨h.cap,h.header_length,Nat.zero_le _,Nat.zero_le _,fun hc => absurd rfl hc,hrest⟩

/-- One call while a frame is due. -/
theorem read_frame (h : Resumable max (frame body++more) r t) (hcap : body.length ≤ max)
    (hb : body.length < 256^4) (hdec : c.decode body = .ok m) (hok : .fail .other ∉ t.script)
    (hread : FrameReader.read c r t = (res,r',t')) :
    t'.script <:+ t.script ∧ (Retry max (frame body++more) t res r' t' ∨
      res = .ok m ∧ Resumable max more r' t' ∧ t'.rest = more) := by
  unfold FrameReader.read at hread
  split at hread
  · next e t₁ header headerRead hf =>
    cases hread
    obtain ⟨h₁,hs,herr,-⟩ := header_stage h hok hf
    obtain ⟨he,hlt⟩ := herr e rfl
    exact ⟨hs,.inl (Retry.of_io he h₁ hlt)⟩
  · next t₁ header headerRead hf =>
    obtain ⟨h₁,hs₁,-,hend⟩ := header_stage h hok hf
    have hfull : headerRead = headerLen := h₁.header_of_frame (hend rfl)
    have hok₁ : Arrival.fail .other ∉ t₁.script := fun hm => hok (hs₁.subset hm)
    have h0 : headerLen ≠ 0 := by decide
    simp only [hfull,h0,Nat.lt_irrefl,if_false] at hread h₁
    obtain ⟨hs,hcase⟩ := readBody_frame h₁ rfl hcap hb hdec hok₁ hread
    refine ⟨hs.trans hs₁,hcase.imp_left ?_⟩
    rintro ⟨hto,hres,hlt⟩
    exact ⟨hto,hres,hlt.trans_le hs₁.length_le⟩

/-- One call when nothing is due. -/
theorem read_end (h : Resumable max [] r t) (hok : .fail .other ∉ t.script)
    (hread : FrameReader.read c r t = (res,r',t')) :
    t'.script <:+ t.script ∧ (Retry max [] t res r' t' ∨
      res = .error .eof ∧ Resumable max [] r' t') := by
  unfold FrameReader.read at hread
  split at hread
  · next e t₁ header headerRead hf =>
    cases hread
    obtain ⟨h₁,hs,herr,-⟩ := header_stage h hok hf
    obtain ⟨he,hlt⟩ := herr e rfl
    exact ⟨hs,.inl (Retry.of_io he h₁ hlt)⟩
  · next t₁ header headerRead hf =>
    obtain ⟨h₁,hs,-,-⟩ := header_stage h hok hf
    have h0 : headerRead = 0 := by
      have hlen := h₁.length_header_take
      rw [(List.append_eq_nil_iff.mp h₁.held).1] at hlen
      exact hlen.symm
    rw [if_pos h0] at hread
    cases hread
    exact ⟨hs,.inr ⟨rfl,h₁⟩⟩

end Call

section Stream
variable {M : Type*}

/-- A message whose encoding the writer's and the reader's cap both allow. -/
def Fits (c : Codec M) (maxWrite maxRead : ℕ) (m : M) : Prop :=
  ∃ body, c.encode m = .ok body ∧ body.length ≤ min maxWrite (2^32-1) ∧ body.length ≤ maxRead

/-- The bytes of several messages on the wire. -/
def frames (c : Codec M) (ms : List M) : List UInt8 :=
  ms.flatMap fun m => frame ((c.encode m).toOption.getD [])

theorem frames_cons {c : Codec M} {m : M} {body : List UInt8} (h : c.encode m = .ok body)
    (ms : List M) : frames c (m::ms) = frame body++frames c ms := by
  simp [frames,h,Except.toOption]

/-- `write_frame` puts exactly these bytes on the wire. -/
theorem writeFrames_eq {c : Codec M} {maxWrite maxRead : ℕ} {ms : List M}
    (hfit : ∀ m ∈ ms, Fits c maxWrite maxRead m) :
    writeFrames c maxWrite ms = .ok (frames c ms) := by
  induction ms with
  | nil => rfl
  | cons m ms ih =>
    obtain ⟨body,henc,hcap,-⟩ := hfit m (by simp)
    have hwrite : writeFrame c maxWrite m = .ok (frame body) := by
      simp only [writeFrame,henc,if_neg (Nat.not_lt.mpr hcap),frame]
    have hrest := ih fun m' hm' => hfit m' (List.mem_cons_of_mem m hm')
    simp [writeFrames,hwrite,hrest,frames_cons henc,Except.map]

/-- The first `n` calls of `read` on one connection, with their results. -/
def readMany (c : Codec M) (r : FrameReader) (t : Transport) :
    ℕ → List (Except FrameError M) × FrameReader × Transport
  | 0 => ([],r,t)
  | n+1 =>
    let q := readMany c r t n
    let p := FrameReader.read c q.2.1 q.2.2
    (q.1++[p.1],p.2.1,p.2.2)

/-- The results of calls that were not to be repeated. -/
def settled (results : List (Except FrameError M)) : List (Except FrameError M) :=
  results.filter fun o => !isTimeout o

theorem settled_concat_timeout {os : List (Except FrameError M)} {o : Except FrameError M}
    (h : isTimeout o) : settled (os++[o]) = settled os := by
  simp [settled,h]

theorem settled_concat {os : List (Except FrameError M)} {o : Except FrameError M}
    (h : isTimeout o = false) : settled (os++[o]) = settled os++[o] := by
  simp [settled,h]

/-- What a series of calls has brought: the messages `done`, then `errs` times the error `last`;
every call has cost one of these or an arrival. -/
structure Tally (script : List Arrival) (last : FrameError) (done : List M) (errs : ℕ)
    (os : List (Except FrameError M)) (t : Transport) : Prop where
  results : settled os = done.map .ok++List.replicate errs (.error last)
  script_suffix : t.script <:+ script
  cost : os.length+t.script.length ≤ done.length+errs+script.length

namespace Tally
variable {script : List Arrival} {last : FrameError} {done : List M} {errs : ℕ}
variable {os : List (Except FrameError M)} {o : Except FrameError M} {t t' : Transport}

theorem nil (last : FrameError) (t : Transport) : Tally (M := M) t.script last [] 0 [] t :=
  ⟨rfl,List.suffix_rfl,le_rfl⟩

theorem timeout (h : Tally script last done errs os t) (ho : isTimeout o)
    (hs : t'.script <:+ t.script) (hlt : t'.script.length < t.script.length) :
    Tally script last done errs (os++[o]) t' := by
  have hcost := h.cost
  refine ⟨(settled_concat_timeout ho).trans h.results,hs.trans h.script_suffix,?_⟩
  rw [List.length_append,List.length_singleton]
  omega

theorem message (h : Tally script last done 0 os t) (hs : t'.script <:+ t.script) (m : M) :
    Tally script last (done++[m]) 0 (os++[.ok m]) t' := by
  have hcost := h.cost
  have hle := hs.length_le
  refine ⟨?_,hs.trans h.script_suffix,?_⟩
  · rw [settled_concat rfl,h.results]
    simp
  · simp only [List.length_append,List.length_singleton]
    omega

theorem refusal (h : Tally script last done errs os t) (hs : t'.script <:+ t.script)
    (hlast : isTimeout (M := M) (.error last) = false) :
    Tally script last done (errs+1) (os++[.error last]) t' := by
  have hcost := h.cost
  have hle := hs.length_le
  refine ⟨?_,hs.trans h.script_suffix,?_⟩
  · rw [settled_concat hlast,h.results,List.replicate_succ',List.append_assoc]
  · rw [List.length_append,List.length_singleton]
    omega

end Tally

/-- Where the first `n` calls have come to: `done` are returned and `left` are not, and every call
has cost a message, an end of file or an arrival. -/
structure Progress (c : Codec M) (max : ℕ) (script : List Arrival) (done left : List M) (eofs : ℕ)
    (q : List (Except FrameError M) × FrameReader × Transport) : Prop where
  results : settled q.1 = done.map .ok++List.replicate eofs (.error .eof)
  eofs_last : left ≠ [] → eofs = 0
  resumable : Resumable max (frames c left) q.2.1 q.2.2
  script_suffix : q.2.2.script <:+ script
  cost : q.1.length+q.2.2.script.length ≤ done.length+eofs+script.length
  boundary : ∀ m, q.1.getLast? = some (.ok m) → q.2.2.rest = frames c left

theorem Progress.step {c : Codec M} {maxWrite max : ℕ} {script : List Arrival} {done left : List M}
    {eofs : ℕ} {q : List (Except FrameError M) × FrameReader × Transport}
    (hcodec : ∀ m body, c.encode m = .ok body → c.decode body = .ok m)
    (hfit : ∀ m ∈ left, Fits c maxWrite max m) (hok : .fail .other ∉ script)
    (h : Progress c max script done left eofs q) :
    ∃ done' left' eofs', done'++left' = done++left ∧
      Progress c max script done' left' eofs' (q.1++[(FrameReader.read c q.2.1 q.2.2).1],
        (FrameReader.read c q.2.1 q.2.2).2.1,(FrameReader.read c q.2.1 q.2.2).2.2) := by
  obtain ⟨os,r,t⟩ := q
  generalize hread : FrameReader.read c r t = p
  obtain ⟨res,r',t'⟩ := p
  have hok' : Arrival.fail .other ∉ t.script := fun hm => hok (h.script_suffix.subset hm)
  have htally : Tally script .eof done eofs os t := ⟨h.results,h.script_suffix,h.cost⟩
  have hretry : t'.script <:+ t.script → Retry max (frames c left) t res r' t' →
      Progress c max script done left eofs (os++[res],r',t') := by
    rintro hs ⟨hto,hres,hlt⟩
    obtain ⟨hresults,hscript,hcost⟩ := htally.timeout hto hs hlt
    refine ⟨hresults,h.eofs_last,hres,hscript,hcost,?_⟩
    intro m hm
    rw [List.getLast?_concat] at hm
    cases hm
    cases hto
  cases left with
  | nil =>
    obtain ⟨hs,hcase⟩ := read_end h.resumable hok' hread
    rcases hcase with hto | ⟨rfl,hres⟩
    · exact ⟨done,[],eofs,rfl,hretry hs hto⟩
    · obtain ⟨hresults,hscript,hcost⟩ := htally.refusal hs rfl
      refine ⟨done,[],eofs+1,rfl,hresults,fun hc => absurd rfl hc,hres,hscript,hcost,?_⟩
      intro m hm
      rw [List.getLast?_concat] at hm
      cases hm
  | cons m left =>
    obtain ⟨body,henc,hcap,hmax⟩ := hfit m (by simp)
    have hdue := h.resumable
    rw [frames_cons henc] at hdue
    obtain ⟨hs,hcase⟩ := read_frame hdue hmax (by omega) (hcodec m body henc) hok' hread
    rw [← frames_cons henc] at hcase
    have h0 := h.eofs_last (List.cons_ne_nil m left)
    subst h0
    rcases hcase with hto | ⟨rfl,hres,hrest⟩
    · exact ⟨done,m::left,0,rfl,hretry hs hto⟩
    · obtain ⟨hresults,hscript,hcost⟩ := htally.message hs m
      exact ⟨done++[m],left,0,by simp,hresults,fun _ => rfl,hres,hscript,hcost,fun _ _ => hrest⟩

/-- The run of `n` calls, by induction on `n`. -/
theorem readMany_progress {c : Codec M} {maxWrite maxRead : ℕ} {messages : List M}
    (hcodec : ∀ m body, c.encode m = .ok body → c.decode body = .ok m)
    (hfit : ∀ m ∈ messages, Fits c maxWrite maxRead m) {script : List Arrival}
    (hscript : .fail .other ∉ script) (n : ℕ) :
    ∃ done left eofs, done++left = messages ∧ Progress c maxRead script done left eofs
      (readMany c (FrameReader.new maxRead) ⟨frames c messages,script⟩ n) := by
  induction n with
  | zero =>
    refine ⟨[],messages,0,rfl,rfl,fun _ => rfl,
      Resumable.new maxRead ⟨frames c messages,script⟩,List.suffix_rfl,?_,?_⟩
    · simp [readMany]
    · intro m hm
      cases hm
  | succ n ih =>
    obtain ⟨done,left,eofs,rfl,h⟩ := ih
    exact h.step hcodec (fun m hm => hfit m (List.mem_append_right done hm)) hscript

theorem length_readMany (c : Codec M) (r : FrameReader) (t : Transport) (n : ℕ) :
    (readMany c r t n).1.length = n := by
  induction n with
  | zero => rfl
  | succ n ih => simp [readMany,ih]

/-- Messages written one after another come out of one reader in order, each once, then ends of
file, whatever pieces the transport makes of the bytes and wherever it times out. -/
theorem frame_stream_round_trip (c : Codec M) (maxWrite maxRead : ℕ) (messages : List M)
    (script : List Arrival)
    (hcodec : ∀ m body, c.encode m = .ok body → c.decode body = .ok m)
    (hfit : ∀ m ∈ messages, Fits c maxWrite maxRead m) (hscript : .fail .other ∉ script) :
    ∃ stream, writeFrames c maxWrite messages = .ok stream ∧
    ∀ n results r t, readMany c (FrameReader.new maxRead) ⟨stream,script⟩ n = (results,r,t) →
    ∃ done left eofs, messages = done++left ∧
      settled results = done.map .ok++List.replicate eofs (.error .eof) ∧
      (left ≠ [] → eofs = 0) ∧
      (messages.length+script.length < n → left = [] ∧ 0 < eofs) ∧
      (∃ following, writeFrames c maxWrite left.tail = .ok following ∧ following <:+ t.rest) ∧
      ∀ m, results.getLast? = some (.ok m) → writeFrames c maxWrite left = .ok t.rest := by
  refine ⟨frames c messages,writeFrames_eq hfit,?_⟩
  intro n results r t hrun
  obtain ⟨done,left,eofs,rfl,h⟩ := readMany_progress hcodec hfit hscript n
  have hn := length_readMany c (FrameReader.new maxRead) ⟨frames c (done++left),script⟩ n
  rw [hrun] at h hn
  have hleft : ∀ m ∈ left, Fits c maxWrite maxRead m :=
    fun m hm => hfit m (List.mem_append_right done hm)
  refine ⟨done,left,eofs,rfl,h.results,h.eofs_last,?_,?_,?_⟩
  · intro hmany
    have hcost : results.length+t.script.length ≤ done.length+eofs+script.length := h.cost
    simp only [List.length_append] at hmany hn
    have heofs : 0 < eofs := by omega
    refine ⟨?_,heofs⟩
    by_contra hne
    exact heofs.ne' (h.eofs_last hne)
  · refine ⟨_,writeFrames_eq fun m hm => hleft m (List.mem_of_mem_tail hm),?_⟩
    cases left with
    | nil => exact List.nil_suffix
    | cons m left =>
      obtain ⟨body,henc,hcap,-⟩ := hleft m (by simp)
      have hdue := h.resumable
      rw [frames_cons henc] at hdue
      exact hdue.more_suffix (by omega)
  · intro m hm
    rw [writeFrames_eq hleft]
    exact congrArg Except.ok (h.boundary m hm).symm

/-- A message is its own encoding. -/
def rawCodec : Codec (List UInt8) := ⟨.ok,.ok⟩

theorem rawCodec_decode (m body : List UInt8) (h : rawCodec.encode m = .ok body) :
    rawCodec.decode body = .ok m := by
  cases h
  rfl

/-- Two messages, the first of them timing out in its header and again in its body. -/
theorem frame_stream_round_trip_two :
    ∃ stream eofs, writeFrames rawCodec 16 [[1,2],[]] = .ok stream ∧ 0 < eofs ∧
    settled (readMany rawCodec (FrameReader.new 16)
      ⟨stream,[.chunk 1,.fail .timedOut,.chunk 0,.fail .interrupted,.chunk 3,.chunk 0,
        .fail .wouldBlock]⟩ 10).1 = [.ok [1,2],.ok []]++List.replicate eofs (.error .eof) := by
  have hfit : ∀ m ∈ [[1,2],[]], Fits rawCodec 16 16 m := by
    intro m hm
    refine ⟨m,rfl,?_⟩
    revert m
    decide
  obtain ⟨stream,hwrite,hread⟩ := frame_stream_round_trip rawCodec 16 16 [[1,2],[]]
    [.chunk 1,.fail .timedOut,.chunk 0,.fail .interrupted,.chunk 3,.chunk 0,.fail .wouldBlock]
    rawCodec_decode hfit (by decide)
  obtain ⟨done,left,eofs,hmessages,hresults,-,hall,-,-⟩ := hread 10 _ _ _ rfl
  obtain ⟨rfl,heofs⟩ := hall (by decide)
  rw [List.append_nil] at hmessages
  subst hmessages
  exact ⟨stream,eofs,hwrite,heofs,hresults⟩

end Stream
end Provium.Protocol
