import Provium.Protocol.FrameStream

/-! Where a stream ends and what a reader says of it. Behind the last whole frame there is nothing,
or a piece of a header, or a header with less than its body, or a header that no reader takes. -/
namespace Provium.Protocol
open Lib

/-- The body length that these bytes announce. -/
def announced (part : List UInt8) : ℕ := fromBeBytes (part.take headerLen)

/-- A whole header that announces more than the cap. -/
def Oversize (max : ℕ) (part : List UInt8) : Prop := headerLen ≤ part.length ∧ max < announced part

/-- No message comes out of these bytes. -/
def Unfinished (max : ℕ) (part : List UInt8) : Prop :=
  headerLen ≤ part.length → announced part ≤ max → part.length < headerLen+announced part

/-- What `read` says of a stream that ends behind these bytes. -/
def ending (max : ℕ) (part : List UInt8) : FrameError :=
  if part.length = 0 then .eof
  else if part.length < headerLen then .unexpectedEof part.length headerLen
  else if max < announced part then .frameTooLarge (announced part) max
  else .unexpectedEof (part.length-headerLen) (announced part)

theorem isTimeout_ending {M : Type*} (max : ℕ) (part : List UInt8) :
    isTimeout (M := M) (.error (ending max part)) = false := by
  unfold ending
  split_ifs
  all_goals rfl

namespace Resumable
variable {max : ℕ} {owed : List UInt8} {r : FrameReader} {t : Transport}

theorem length_owed (h : Resumable max owed r t) :
    owed.length = r.headerRead+(r.bodyRead+t.rest.length) := by
  rw [← h.held,List.length_append,List.length_append,h.length_header_take,h.length_body_take]

theorem bodyRead_eq_zero (h : Resumable max owed r t) (hr : r.headerRead ≠ headerLen) :
    r.bodyRead = 0 := by
  by_contra h0
  exact hr (h.body_sized h0).1

theorem announced_eq (h : Resumable max owed r t) (hr : r.headerRead = headerLen) :
    announced owed = fromBeBytes r.header := by
  have hheld := h.held
  rw [hr,← h.header_length,List.take_length] at hheld
  rw [announced,← hheld,← h.header_length,List.take_left]

end Resumable

section Call
variable {M : Type*} {c : Codec M} {max : ℕ} {part : List UInt8} {m : M}
variable {r r' : FrameReader} {t t' : Transport} {res : Except FrameError M}

/-- The body part of a call behind a header whose body will never be whole. -/
theorem readBody_unfinished (h : Resumable max part r t) (hr : r.headerRead = headerLen)
    (hpart : Unfinished max part) (hok : .fail .other ∉ t.script)
    (hread : FrameReader.readBody c r t = (res,r',t')) :
    t'.script <:+ t.script ∧
    (Retry max part t res r' t' ∨ res = .error (ending max part) ∧ Resumable max part r' t') ∧
    (Oversize max part → r' = r ∧ t' = t) := by
  obtain rfl := h.cap
  have hann := h.announced_eq hr
  have hlen := h.length_owed
  rw [hr] at hlen
  have hheader : ¬part.length < headerLen := by omega
  have hsome : part.length ≠ 0 := by
    simp only [headerLen] at hheader
    omega
  obtain ⟨hle,-⟩ := h.take_resize
  simp only [FrameReader.readBody,← hann] at hread hle
  by_cases hbig : r.maxBodyBytes < announced part
  · rw [if_pos hbig] at hread
    cases hread
    refine ⟨List.suffix_rfl,.inr ⟨?_,h⟩,fun _ => ⟨rfl,rfl⟩⟩
    simp only [ending,hsome,hheader,hbig,if_true,if_false]
  · have hfit : ¬Oversize r.maxBodyBytes part := fun hc => hbig hc.2
    have hshort : part.length < headerLen+announced part := hpart (by omega) (by omega)
    rw [if_neg hbig] at hread
    split at hread
    · next e t₁ body bodyRead hf =>
      cases hread
      obtain ⟨-,-,-,-,hs,-,-⟩ := readFull_spec hle hf
      obtain ⟨he,hlt⟩ := readFull_timeout hle hok hf
      rw [hann] at hf
      exact ⟨hs,.inl (Retry.of_io he (h.readFull_body hr hf) hlt),fun hc => absurd hc hfit⟩
    · next t₁ body bodyRead hf =>
      obtain ⟨-,-,-,-,hs,hend,-⟩ := readFull_spec hle hf
      rw [length_resize] at hend
      rw [hann] at hf
      have h₁ := h.readFull_body hr hf
      have hlen₁ : part.length = r.headerRead+(bodyRead+t₁.rest.length) := h₁.length_owed
      rw [hr] at hlen₁
      have hstop : t₁.rest = [] := by
        rcases hend rfl with hfull | hrest
        · omega
        · exact hrest
      rw [hstop,List.length_nil] at hlen₁
      have hmissing : bodyRead < announced part := by omega
      have hgot : part.length-headerLen = bodyRead := by omega
      rw [if_pos hmissing] at hread
      cases hread
      refine ⟨hs,.inr ⟨?_,h₁⟩,fun hc => absurd hc hfit⟩
      simp only [ending,hsome,hheader,hbig,hgot,if_false]

/-- One call on a stream that ends before the next message does. -/
theorem read_unfinished (h : Resumable max part r t) (hpart : Unfinished max part)
    (hok : .fail .other ∉ t.script) (hread : FrameReader.read c r t = (res,r',t')) :
    t'.script <:+ t.script ∧
    (Retry max part t res r' t' ∨ res = .error (ending max part) ∧ Resumable max part r' t') ∧
    (Oversize max part → r'.body = r.body ∧ r'.bodyRead = r.bodyRead) := by
  unfold FrameReader.read at hread
  split at hread
  · next e t₁ header headerRead hf =>
    cases hread
    obtain ⟨h₁,hs,herr,-⟩ := header_stage h hok hf
    obtain ⟨he,hlt⟩ := herr e rfl
    exact ⟨hs,.inl (Retry.of_io he h₁ hlt),fun _ => ⟨rfl,rfl⟩⟩
  · next t₁ header headerRead hf =>
    obtain ⟨h₁,hs,-,hend⟩ := header_stage h hok hf
    have hlen : part.length = headerRead+(r.bodyRead+t₁.rest.length) := h₁.length_owed
    by_cases hfull : headerRead = headerLen
    · have h0 : headerLen ≠ 0 := by decide
      simp only [hfull,h0,Nat.lt_irrefl,if_false] at hread h₁
      have hok₁ : Arrival.fail .other ∉ t₁.script := fun hm => hok (hs.subset hm)
      obtain ⟨hs₁,hcase,hbig⟩ := readBody_unfinished h₁ rfl hpart hok₁ hread
      refine ⟨hs₁.trans hs,hcase.imp_left ?_,?_⟩
      · rintro ⟨hto,hres,hlt⟩
        exact ⟨hto,hres,hlt.trans_le hs.length_le⟩
      · intro hover
        obtain ⟨rfl,-⟩ := hbig hover
        exact ⟨rfl,rfl⟩
    · -- a header that is not whole is all that the stream still had
      have h0 : r.bodyRead = 0 := h₁.bodyRead_eq_zero hfull
      have hle : headerRead ≤ headerLen := h₁.header_le
      have hstop : t₁.rest = [] := (hend rfl).resolve_left hfull
      rw [h0,hstop,List.length_nil] at hlen
      have hgot : headerRead = part.length := by omega
      subst hgot
      have hlt : part.length < headerLen := by omega
      refine ⟨?_,?_⟩
      · split_ifs at hread
        all_goals
          cases hread
          exact hs
      · split_ifs at hread with hnil
        all_goals
          cases hread
          refine ⟨.inr ⟨?_,h₁⟩,fun _ => ⟨rfl,rfl⟩⟩
        · simp only [ending,hnil,if_true]
        · simp only [ending,hnil,hlt,if_true,if_false]

/-- A message has been taken out of the buffer, which is then empty. -/
theorem body_of_read (hread : FrameReader.read c r t = (.ok m,r',t')) :
    r'.body = [] ∧ r'.bodyRead = 0 := by
  unfold FrameReader.read at hread
  split at hread
  · cases hread
  · split_ifs at hread
    · cases hread
    · cases hread
    · unfold FrameReader.readBody at hread
      dsimp only at hread
      split_ifs at hread
      · cases hread
      · split at hread
        · cases hread
        · split_ifs at hread
          · cases hread
          · split at hread
            · cases hread
            · cases hread
              exact ⟨rfl,rfl⟩

end Call

section Stream
variable {M : Type*} {c : Codec M} {maxWrite max : ℕ} {script : List Arrival} {part : List UInt8}
variable {done left : List M} {errs : ℕ}

/-- Where the first `n` calls have come to on a stream that ends with `part`: `done` are returned
and `left` are not. Of an oversize frame the body is not even begun. -/
structure Cut (c : Codec M) (max : ℕ) (script : List Arrival) (part : List UInt8)
    (done left : List M) (errs : ℕ) (q : List (Except FrameError M) × FrameReader × Transport) :
    Prop where
  tally : Tally script (ending max part) done errs q.1 q.2.2
  errs_last : left ≠ [] → errs = 0
  resumable : Resumable max (frames c left++part) q.2.1 q.2.2
  refused : left = [] → Oversize max part → q.2.1.body = [] ∧ q.2.1.bodyRead = 0

theorem Cut.step {q : List (Except FrameError M) × FrameReader × Transport}
    (hcodec : ∀ m body, c.encode m = .ok body → c.decode body = .ok m)
    (hfit : ∀ m ∈ left, Fits c maxWrite max m) (hpart : Unfinished max part)
    (hok : .fail .other ∉ script) (h : Cut c max script part done left errs q) :
    ∃ done' left' errs', done'++left' = done++left ∧
      Cut c max script part done' left' errs' (q.1++[(FrameReader.read c q.2.1 q.2.2).1],
        (FrameReader.read c q.2.1 q.2.2).2.1,(FrameReader.read c q.2.1 q.2.2).2.2) := by
  obtain ⟨os,r,t⟩ := q
  generalize hread : FrameReader.read c r t = p
  obtain ⟨res,r',t'⟩ := p
  have htally := h.tally
  have hdue := h.resumable
  have hok' : Arrival.fail .other ∉ t.script := fun hm => hok (htally.script_suffix.subset hm)
  cases left with
  | nil =>
    obtain ⟨hs,hcase,hbuf⟩ := read_unfinished hdue hpart hok' hread
    have hrefused : ([] : List M) = [] → Oversize max part → r'.body = [] ∧ r'.bodyRead = 0 := by
      intro _ hbig
      obtain ⟨hbody,hcount⟩ := hbuf hbig
      obtain ⟨hbody₀,hcount₀⟩ := h.refused rfl hbig
      exact ⟨hbody.trans hbody₀,hcount.trans hcount₀⟩
    rcases hcase with ⟨hto,hres,hlt⟩ | ⟨rfl,hres⟩
    · exact ⟨done,[],errs,rfl,htally.timeout hto hs hlt,h.errs_last,hres,hrefused⟩
    · exact ⟨done,[],errs+1,rfl,htally.refusal hs (isTimeout_ending max part),
        fun hc => absurd rfl hc,hres,hrefused⟩
  | cons m left =>
    obtain ⟨body,henc,hcap,hmax⟩ := hfit m (by simp)
    rw [frames_cons henc,List.append_assoc] at hdue
    obtain ⟨hs,hcase⟩ := read_frame hdue hmax (by omega) (hcodec m body henc) hok' hread
    rw [← List.append_assoc,← frames_cons henc] at hcase
    obtain rfl := h.errs_last (List.cons_ne_nil m left)
    rcases hcase with ⟨hto,hres,hlt⟩ | ⟨rfl,hres,-⟩
    · exact ⟨done,m::left,0,rfl,htally.timeout hto hs hlt,h.errs_last,hres,
        fun hc => absurd hc (List.cons_ne_nil m left)⟩
    · exact ⟨done++[m],left,0,by simp,htally.message hs m,fun _ => rfl,hres,
        fun _ _ => body_of_read hread⟩

/-- The run of `n` calls, by induction on `n`. -/
theorem readMany_cut {whole : List M}
    (hcodec : ∀ m body, c.encode m = .ok body → c.decode body = .ok m)
    (hfit : ∀ m ∈ whole, Fits c maxWrite max m) (hpart : Unfinished max part)
    (hok : .fail .other ∉ script) (n : ℕ) :
    ∃ done left errs, done++left = whole ∧ Cut c max script part done left errs
      (readMany c (FrameReader.new max) ⟨frames c whole++part,script⟩ n) := by
  induction n with
  | zero =>
    exact ⟨[],whole,0,rfl,Tally.nil _ ⟨frames c whole++part,script⟩,fun _ => rfl,
      Resumable.new max ⟨frames c whole++part,script⟩,fun _ _ => ⟨rfl,rfl⟩⟩
  | succ n ih =>
    obtain ⟨done,left,errs,rfl,h⟩ := ih
    exact h.step hcodec (fun m hm => hfit m (List.mem_append_right done hm)) hpart hok

/-- What the first `n` calls return: messages of `whole` in order, and once these are all returned
the one error, however often the caller comes back. -/
def Returns (script : List Arrival) (whole : List M) (last : FrameError) (n : ℕ)
    (results : List (Except FrameError M)) : Prop :=
  ∃ done left errs, whole = done++left ∧
    settled results = done.map .ok++List.replicate errs (.error last) ∧
    (left ≠ [] → errs = 0) ∧ (whole.length+script.length < n → left = [] ∧ 0 < errs)

theorem Cut.returns {q : List (Except FrameError M) × FrameReader × Transport} {n : ℕ}
    (h : Cut c max script part done left errs q) (hn : q.1.length = n) :
    Returns script (done++left) (ending max part) n q.1 := by
  refine ⟨done,left,errs,rfl,h.tally.results,h.errs_last,fun hmany => ?_⟩
  have hcost := h.tally.cost
  rw [List.length_append] at hmany
  have herrs : 0 < errs := by omega
  refine ⟨?_,herrs⟩
  by_contra hne
  exact herrs.ne' (h.errs_last hne)

/-- Where a stream of messages is cut, by how many bytes lie behind the last message returned, and
what the reader says there. -/
inductive CutAt (c : Codec M) (max : ℕ) : List M → ℕ → FrameError → Prop where
  | boundary (left : List M) : CutAt c max left 0 .eof
  | header {m : M} {left : List M} {j : ℕ} (hj : 0 < j) (hlt : j < headerLen) :
      CutAt c max (m::left) j (.unexpectedEof j headerLen)
  | body {m : M} {left : List M} {body : List UInt8} {j : ℕ} (henc : c.encode m = .ok body)
      (hmax : body.length ≤ max) (hlt : j < body.length) :
      CutAt c max (m::left) (headerLen+j) (.unexpectedEof j body.length)
  | tooLarge {m : M} {left : List M} {body : List UInt8} {j : ℕ} (henc : c.encode m = .ok body)
      (hmax : max < body.length) (hj : headerLen ≤ j) :
      CutAt c max (m::left) j (.frameTooLarge body.length max)

/-- The bytes behind the last message returned announce what the next message is. -/
theorem announced_take {body : List UInt8} (more : List UInt8) (hb : body.length < 256^4) {j : ℕ}
    (hj : headerLen ≤ j) : announced ((frame body++more).take j) = body.length := by
  have hheader : ((frame body++more).take j).take headerLen = toBeBytes headerLen body.length := by
    rw [List.take_take,Nat.min_eq_left hj,frame,List.append_assoc]
    exact List.take_left' (length_toBeBytes headerLen body.length)
  rw [announced,hheader]
  exact fromBeBytes_toBeBytes hb

theorem cutAt_frame {m : M} {left : List M} {body more : List UInt8} {j : ℕ}
    (henc : c.encode m = .ok body) (hb : body.length < 256^4) (hj : j ≤ (frame body++more).length)
    (hcut : body.length ≤ max → j < headerLen+body.length) :
    Unfinished max ((frame body++more).take j) ∧
      CutAt c max (m::left) j (ending max ((frame body++more).take j)) := by
  have hlen : ((frame body++more).take j).length = j := by
    rw [List.length_take,Nat.min_eq_left hj]
  by_cases h0 : j = 0
  · subst h0
    exact ⟨fun hc => absurd hc (by simp [headerLen]),.boundary _⟩
  · by_cases hlt : j < headerLen
    · refine ⟨fun hc => absurd hc (by omega),?_⟩
      simp only [ending,hlen,h0,hlt,if_true,if_false]
      exact .header (by omega) hlt
    · have hann := announced_take more hb (Nat.not_lt.mp hlt)
      refine ⟨fun _ hle => ?_,?_⟩
      · rw [hann] at hle ⊢
        rw [hlen]
        exact hcut hle
      · simp only [ending,hlen,h0,hlt,hann,if_false]
        split_ifs with hmax
        · exact .tooLarge henc hmax (by omega)
        · obtain ⟨i,rfl⟩ := Nat.exists_eq_add_of_le (Nat.not_lt.mp hlt)
          rw [Nat.add_sub_cancel_left]
          exact .body henc (by omega) (by omega)

end Stream

section Written
variable {M : Type*} {c : Codec M} {maxWrite maxRead : ℕ} {messages : List M}

theorem frames_append (whole left : List M) :
    frames c (whole++left) = frames c whole++frames c left :=
  List.flatMap_append

/-- What `write_frame` has written are the frames of messages within its cap. -/
theorem writeFrames_ok {stream : List UInt8} (h : writeFrames c maxWrite messages = .ok stream) :
    stream = frames c messages ∧
    ∀ m ∈ messages, ∃ body, c.encode m = .ok body ∧ body.length ≤ min maxWrite (2^32-1) := by
  induction messages generalizing stream with
  | nil =>
    cases h
    exact ⟨rfl,fun m hm => absurd hm List.not_mem_nil⟩
  | cons m messages ih =>
    simp only [writeFrames,writeFrame] at h
    split at h
    · cases h
    · next written hwrite =>
      split at hwrite
      · cases hwrite
      · next body henc =>
        split_ifs at hwrite with hcap
        cases hwrite
        cases hrest : writeFrames c maxWrite messages with
        | error e =>
          rw [hrest] at h
          cases h
        | ok following =>
          rw [hrest] at h
          cases h
          obtain ⟨hfollowing,hall⟩ := ih hrest
          refine ⟨by rw [frames_cons henc,hfollowing,frame],fun m' hm' => ?_⟩
          rcases List.mem_cons.mp hm' with rfl | hmem
          · exact ⟨body,henc,Nat.not_lt.mp hcap⟩
          · exact hall m' hmem

/-- Where a stream is cut: behind the messages that are whole and within the reader's cap. -/
theorem exists_cut (maxRead : ℕ) (hall : ∀ m ∈ messages, ∃ body, c.encode m = .ok body ∧
      body.length ≤ min maxWrite (2^32-1)) {k : ℕ} (hk : k ≤ (frames c messages).length) :
    ∃ whole left j part, messages = whole++left ∧ k = (frames c whole).length+j ∧
      (frames c messages).take k = frames c whole++part ∧
      (∀ m ∈ whole, Fits c maxWrite maxRead m) ∧ Unfinished maxRead part ∧
      CutAt c maxRead left j (ending maxRead part) := by
  induction messages generalizing k with
  | nil =>
    obtain rfl : k = 0 := by simpa [frames] using hk
    exact ⟨[],[],0,[],rfl,rfl,rfl,by simp,fun hc => absurd hc (by simp [headerLen]),.boundary []⟩
  | cons m messages ih =>
    obtain ⟨body,henc,hcap⟩ := hall m (by simp)
    rw [frames_cons henc] at hk ⊢
    by_cases hpast : headerLen+body.length ≤ k ∧ body.length ≤ maxRead
    · obtain ⟨hwhole,hmax⟩ := hpast
      obtain ⟨i,rfl⟩ := Nat.exists_eq_add_of_le hwhole
      have hlen : (frame body).length = headerLen+body.length := length_frame body
      have hi : i ≤ (frames c messages).length := by
        rw [List.length_append] at hk
        omega
      obtain ⟨whole,left,j,part,hsplit,hpos,htake,hfit,hpart,hcut⟩ :=
        ih (fun m' hm' => hall m' (List.mem_cons_of_mem m hm')) hi
      refine ⟨m::whole,left,j,part,by rw [hsplit,List.cons_append],?_,?_,?_,hpart,hcut⟩
      · rw [frames_cons henc,List.length_append]
        omega
      · rw [← hlen,List.take_length_add_append,htake,frames_cons henc,List.append_assoc]
      · intro m' hm'
        rcases List.mem_cons.mp hm' with rfl | hmem
        · exact ⟨body,henc,hcap,hmax⟩
        · exact hfit m' hmem
    · have hshort : body.length ≤ maxRead → k < headerLen+body.length := by omega
      obtain ⟨hpart,hcut⟩ := cutAt_frame henc (by omega) hk hshort
      exact ⟨[],m::messages,k,_,rfl,(Nat.zero_add k).symm,rfl,by simp,hpart,hcut⟩

/-- Messages within the reader's cap are cut cleanly exactly at a frame boundary. -/
theorem cutAt_eof_iff {whole left : List M} {j : ℕ} {last : FrameError}
    (hfit : ∀ m ∈ whole++left, Fits c maxWrite maxRead m) (hcut : CutAt c maxRead left j last) :
    last = .eof ↔
      ∃ i, (frames c whole).length+j = (frames c ((whole++left).take i)).length := by
  have htorn : ∀ m rest body, left = m::rest → c.encode m = .ok body →
      0 < j → j < headerLen+body.length →
      ¬∃ i, (frames c whole).length+j = (frames c ((whole++left).take i)).length := by
    rintro m rest body rfl henc hpos hlt ⟨i,hi⟩
    rw [List.take_append,frames_append,List.length_append] at hi
    have hlen : (frame body).length = headerLen+body.length := length_frame body
    cases hd : i-whole.length with
    | zero =>
      have hsplit := congrArg (fun ms => (frames c ms).length) (List.take_append_drop i whole)
      simp only [frames_append,List.length_append] at hsplit
      rw [hd,List.take_zero] at hi
      simp only [frames,List.flatMap_nil,List.length_nil] at hi hsplit
      omega
    | succ d =>
      have hall : whole.take i = whole := List.take_of_length_le (by omega)
      rw [hall,hd,List.take_succ_cons,frames_cons henc,List.length_append] at hi
      omega
  cases hcut with
  | boundary left =>
    refine ⟨fun _ => ⟨whole.length,?_⟩,fun _ => rfl⟩
    rw [List.take_left,Nat.add_zero]
  | @header m rest j hj hlt =>
    obtain ⟨body,henc,-⟩ := hfit m (by simp)
    refine ⟨fun hc => (by cases hc),fun hc => absurd hc ?_⟩
    exact htorn m rest body rfl henc hj (by omega)
  | @body m rest body j henc hmax hlt =>
    refine ⟨fun hc => (by cases hc),fun hc => absurd hc ?_⟩
    exact htorn m rest body rfl henc (by simp [headerLen]) (by omega)
  | @tooLarge m rest body j henc hmax hj =>
    obtain ⟨body',henc',-,hmax'⟩ := hfit m (by simp)
    rw [henc] at henc'
    cases henc'
    exact absurd hmax' (by omega)

end Written

/-- `write_frame` into a writer that has `write_all`. -/
def writeFrameTo {M W : Type*} (writeAll : W → List UInt8 → Except IoErrorKind Unit × W)
    (c : Codec M) (writer : W) (message : M) (maxBodyBytes : ℕ) : Except FrameError Unit × W :=
  match writeFrame c maxBodyBytes message with
  | .error e => (.error e,writer)
  | .ok buf =>
    match writeAll writer buf with
    | (.error e,writer) => (.error (.io e),writer)
    | (.ok (),writer) => (.ok (),writer)

/-- A stream of written messages, ended at any byte: the whole messages come out, then the error
that tells exactly where it was cut. A header beyond the cap is refused with its body untouched,
and a message beyond the cap is not written. -/
theorem frame_truncation {M : Type*} (c : Codec M) (maxWrite maxRead : ℕ)
    (hcodec : ∀ m body, c.encode m = .ok body → c.decode body = .ok m) :
    (∀ messages stream k script, writeFrames c maxWrite messages = .ok stream →
      k ≤ stream.length → .fail .other ∉ script →
      ∃ whole left j last, messages = whole++left ∧ k = (frames c whole).length+j ∧
        CutAt c maxRead left j last ∧
        ((∀ m ∈ messages, Fits c maxWrite maxRead m) →
          (last = .eof ↔ ∃ i, k = (frames c (messages.take i)).length)) ∧
        ∀ n, Returns script whole last n
          (readMany c (FrameReader.new maxRead) ⟨stream.take k,script⟩ n).1) ∧
    (∀ whole header more script, (∀ m ∈ whole, Fits c maxWrite maxRead m) →
      header.length = headerLen → maxRead < fromBeBytes header → .fail .other ∉ script →
      ∀ n results r t, readMany c (FrameReader.new maxRead)
          ⟨frames c whole++(header++more),script⟩ n = (results,r,t) →
        Returns script whole (.frameTooLarge (fromBeBytes header) maxRead) n results ∧
        (whole.length ≤ (settled results).length →
          r.body = [] ∧ r.bodyRead = 0 ∧ more <:+ t.rest)) ∧
    ∀ (W : Type) (writeAll : W → List UInt8 → Except IoErrorKind Unit × W) (writer : W)
      (message : M) (body : List UInt8), c.encode message = .ok body → maxWrite < body.length →
      writeFrameTo writeAll c writer message maxWrite =
        (.error (.frameTooLarge body.length (min maxWrite (2^32-1))),writer) := by
  refine ⟨?_,?_,?_⟩
  · intro messages stream k script hwrite hk hok
    obtain ⟨rfl,hall⟩ := writeFrames_ok hwrite
    obtain ⟨whole,left,j,part,rfl,rfl,htake,hfit,hpart,hcut⟩ := exists_cut maxRead hall hk
    refine ⟨whole,left,j,_,rfl,rfl,hcut,fun hfits => cutAt_eof_iff hfits hcut,fun n => ?_⟩
    rw [htake]
    obtain ⟨done,due,errs,rfl,h⟩ := readMany_cut hcodec hfit hpart hok n
    exact h.returns (length_readMany c _ _ n)
  · intro whole header more script hfit hheader hbig hok n results r t hrun
    have hann : announced (header++more) = fromBeBytes header := by
      rw [announced,← hheader,List.take_left]
    have hlen : headerLen ≤ (header++more).length := by
      rw [List.length_append]
      omega
    have hover : Oversize maxRead (header++more) := ⟨hlen,hann ▸ hbig⟩
    have hpart : Unfinished maxRead (header++more) := fun _ hle => absurd hover.2 (by omega)
    have hending : ending maxRead (header++more) = .frameTooLarge (fromBeBytes header) maxRead := by
      have h0 : (header++more).length ≠ 0 := fun hc => absurd hlen (by simp [hc,headerLen])
      simp only [ending,h0,Nat.not_lt.mpr hlen,hann,hbig,if_true,if_false]
    obtain ⟨done,due,errs,rfl,h⟩ := readMany_cut hcodec hfit hpart hok n
    have hn := length_readMany c (FrameReader.new maxRead)
      ⟨frames c (done++due)++(header++more),script⟩ n
    rw [hrun] at h hn
    refine ⟨hending ▸ h.returns hn,fun hmany => ?_⟩
    have hdue : due = [] := by
      by_contra hne
      have hpos := List.length_pos_iff.mpr hne
      have hresults : settled results = done.map .ok++List.replicate errs
        (.error (ending maxRead (header++more))) := h.tally.results
      rw [hresults,h.errs_last hne] at hmany
      simp only [List.length_append,List.length_map,List.length_replicate] at hmany
      omega
    subst hdue
    obtain ⟨hbody,hcount⟩ := h.refused rfl hover
    refine ⟨hbody,hcount,?_⟩
    have hheld : r.header.take r.headerRead++(r.body.take r.bodyRead++t.rest) = header++more :=
      h.resumable.held
    rw [hcount,List.take_zero,List.nil_append] at hheld
    have hle : r.headerRead ≤ headerLen := h.resumable.header_le
    have hhead : (r.header.take r.headerRead).length ≤ headerLen :=
      (List.length_take_le _ _).trans hle
    have hsum := congrArg List.length hheld
    rw [List.length_append,List.length_append] at hsum
    apply List.suffix_of_suffix_length_le (List.suffix_append header more)
    · exact hheld ▸ List.suffix_append _ _
    · omega
  · intro W writeAll writer message body henc hbig
    have hcap : min maxWrite (2^32-1) < body.length := lt_of_le_of_lt (Nat.min_le_left _ _) hbig
    simp only [writeFrameTo,writeFrame,henc,hcap,if_true]


/-- Two messages, the second without the last byte of its body. -/
theorem frame_truncation_torn_body :
    ∃ whole left j last, [[1,2],[3,4]] = whole++left ∧ 11 = (frames rawCodec whole).length+j ∧
      CutAt rawCodec 16 left j last ∧
      Returns [.chunk 1,.fail .timedOut] whole last 6 (readMany rawCodec (FrameReader.new 16)
        ⟨[0,0,0,2,1,2,0,0,0,2,3],[.chunk 1,.fail .timedOut]⟩ 6).1 := by
  obtain ⟨htorn,-,-⟩ := frame_truncation rawCodec 16 16 rawCodec_decode
  obtain ⟨whole,left,j,last,hsplit,hpos,hcut,-,hreturns⟩ :=
    htorn [[1,2],[3,4]] [0,0,0,2,1,2,0,0,0,2,3,4] 11 [.chunk 1,.fail .timedOut] rfl (by decide)
      (by decide)
  exact ⟨whole,left,j,last,hsplit,hpos,hcut,hreturns 6⟩


end Provium.Protocol
