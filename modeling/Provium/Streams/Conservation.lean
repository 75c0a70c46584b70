import Provium.Streams.Kinds

/-! No byte of a stream is lost where every call that gathers bytes either gives them out or keeps them.
What is lost is never seen again, so a run loses nothing exactly if no call of it does. -/
namespace Provium.Streams

def Got.bytes : Got → List UInt8
  | data b => b
  | ended => []
  | fault _ => []

/-- What a call has given out or passed over. -/
def Result.given : Result → List UInt8
  | nothing => []
  | bytes b => b
  | passed b => b
  | frames l => l.flatten
  | flag _ => []
  | error _ => []
  | panic => []

/-- What comes before the deadline, the end or a fault. -/
def arriving (read : StreamState → Got × StreamState) : ℕ → StreamState → List UInt8
  | 0,_ => []
  | k+1,s => match read s with
    | (.data b,s) => b++arriving read k s
    | _ => []

/-- A fault comes before the deadline and the end. -/
def faultAhead (read : StreamState → Got × StreamState) : ℕ → StreamState → Bool
  | 0,_ => false
  | k+1,s => match read s with
    | (.data _,s) => faultAhead read k s
    | (.ended,_) => false
    | (.fault _,_) => true

/-- What a call has to work with. -/
def atHand (read : StreamState → Got × StreamState) (limit : Limit) (s : StreamState) : List UInt8 :=
  s.pending++arriving read limit.reads s

/-- A call finds its pattern in what it has to work with, or has nothing. -/
def FindsOrBare (read : StreamState → Got × StreamState) (pattern : List UInt8) (limit : Limit)
    (s : StreamState) : Prop :=
  pattern <:+: atHand read limit s ∨ atHand read limit s = []

/-- When `read_until` and `expect` lose nothing. -/
def AwaitSpares : Kind → List UInt8 → Limit → StreamState → Prop
  | .tail,p,l,s => text p = true → l.tooLong = false → s.poisoned = false → FindsOrBare nextFrame p l s
  | .console,_,_,_ => True
  | .capture,p,l,s => l.tooLong = false → s.poisoned = false →
      (p = [] → s.pending = []) ∧ (p ≠ [] → FindsOrBare readPipe p l s)

/-- When a call loses nothing, as far as its arguments, what is pending and what comes tell. -/
def Spares : Kind → Call → StreamState → Prop
  | kind,.readUntil p l,s => AwaitSpares kind p l s
  | kind,.expect p l,s => AwaitSpares kind p l s
  | .tail,.drain l,s => l.tooLong = false → s.poisoned = false →
      faultAhead nextFrame l.reads s = true → atHand nextFrame l s = []
  | _,_,_ => True

/-- Each call of a run loses nothing. -/
def SparesAll (kind : Kind) : List Call → StreamState → Prop
  | [],_ => True
  | c::cs,s => Spares kind c s ∧ SparesAll kind cs (call kind c s).2

/-- What a read does to a stream. -/
structure ReadLaw (read : StreamState → Got × StreamState) : Prop where
  pending : ∀ s, (read s).2.pending = s.pending
  apart : ∀ s p, read { s with pending := p } = ((read s).1,{ (read s).2 with pending := p })
  connected : ∀ s, (read s).2.connected = s.connected
  unread : ∀ s, s.unread = (read s).1.bytes++(read s).2.unread

theorem nextFrame_law : ReadLaw nextFrame := by
  refine ⟨?_,?_,?_,?_⟩ <;> intro s
  · unfold nextFrame
    split
    · rfl
    · split <;> rfl
  · intro p
    obtain ⟨connected,eof,pending,poisoned,source⟩ := s
    cases eof with
    | true => rfl
    | false => rcases source with _ | ⟨b | last,rest⟩ <;> rfl
  · unfold nextFrame
    split
    · rfl
    · split <;> rfl
  unfold nextFrame
  split
  · rfl
  · split
    · next h => simp [StreamState.unread,h,Got.bytes]
    · next h => simp [StreamState.unread,h,Got.bytes,Arrival.bytes]
    · next h => simp [StreamState.unread,h,Got.bytes,Arrival.bytes]

theorem readPipe_law : ReadLaw readPipe := by
  refine ⟨?_,?_,?_,?_⟩ <;> intro s
  · unfold readPipe
    split
    · rfl
    · split <;> rfl
    · rfl
  · intro p
    obtain ⟨connected,eof,pending,poisoned,source⟩ := s
    rcases source with _ | ⟨b | last,rest⟩
    · rfl
    · by_cases hb : b = [] <;> simp [readPipe,hb]
    · rfl
  · unfold readPipe
    split
    · rfl
    · split <;> rfl
    · rfl
  unfold readPipe
  split
  · next h => simp [StreamState.unread,h,Got.bytes]
  · next b rest h =>
    split
    · next hb => simp [StreamState.unread,h,Got.bytes,Arrival.bytes,hb]
    · by_cases hroom : b.length ≤ room
      · simp [StreamState.unread,h,Got.bytes,Arrival.bytes,hroom,List.take_of_length_le hroom]
      · simp only [StreamState.unread,h,Got.bytes,hroom,if_false,List.flatMap_cons,Arrival.bytes]
        rw [← List.append_assoc,List.take_append_drop]
  · next h => simp [StreamState.unread,h,Got.bytes,Arrival.bytes]

/-- Where one call takes a stream: what it loses, what it gives and what is left. -/
structure Moves (s : StreamState) (o : Result × StreamState) (lost : List UInt8) : Prop where
  bytes : s.pending++s.unread = lost++(o.1.given++(o.2.pending++o.2.unread))
  connected : o.2.connected = s.connected

section Gather
variable {read : StreamState → Got × StreamState} {pattern : List UInt8} {give : List UInt8 → Result}

/-- What is pending or gathered, split behind the pattern. -/
theorem given_split (hgive : ∀ b, (give b).given = b) (acc : List UInt8) (n : ℕ) :
    (give (acc.take n)).given++acc.drop n = acc := by
  rw [hgive,List.take_append_drop]

/-- The pattern is in what is pending: what stands before its end is given out and the rest stays. -/
theorem found_moves (hgive : ∀ b, (give b).given = b) (s : StreamState) (n : ℕ) :
    Moves s (give (s.pending.take n),{ s with pending := s.pending.drop n }) [] := by
  refine ⟨?_,rfl⟩
  change _ = [] ++ ((give _).given++(s.pending.drop n++s.unread))
  rw [List.nil_append,← List.append_assoc,given_split hgive]

/-- The loop finds the pattern, and nothing is lost, or it does not, and all that it has gathered is. -/
theorem gather_moves (hread : ReadLaw read) (hgive : ∀ b, (give b).given = b) (k : ℕ) {acc : List UInt8}
    {s : StreamState} (hpending : s.pending = []) (hconnected : s.connected = true)
    (hacc : ¬pattern <:+: acc) :
    (gather read pattern give k acc s).2.connected = s.connected ∧
      ((pattern <:+: acc++arriving read k s ∧ acc++s.unread =
          (gather read pattern give k acc s).1.given++((gather read pattern give k acc s).2.pending++
            (gather read pattern give k acc s).2.unread)) ∨
        (¬pattern <:+: acc++arriving read k s ∧ acc++s.unread = (acc++arriving read k s)++
          ((gather read pattern give k acc s).1.given++((gather read pattern give k acc s).2.pending++
            (gather read pattern give k acc s).2.unread)))) := by
  induction k generalizing acc s with
  | zero =>
    refine ⟨rfl,.inr ⟨?_,?_⟩⟩
    · simpa [arriving] using hacc
    · simp [gather,arriving,Result.given,hpending]
  | succ k ih =>
    have hp := hread.pending s
    have hc := hread.connected s
    have hu := hread.unread s
    rcases hr : read s with ⟨got,s'⟩
    rw [hr] at hp hc hu
    simp only at hp hc hu
    cases got with
    | data b =>
      cases hsearch : search pattern (acc++b) with
      | some i =>
        have hinfix : pattern <:+: acc++b := by
          rw [← search_isSome,hsearch]
          rfl
        simp only [gather,hconnected,Bool.not_true,Bool.false_eq_true,if_false,hr,hsearch,arriving]
        refine ⟨hc.trans hconnected,.inl ⟨?_,?_⟩⟩
        · rw [← List.append_assoc]
          exact List.infix_append_of_infix_left hinfix
        · rw [← List.append_assoc,given_split hgive,hu,Got.bytes,List.append_assoc]
          rfl
      | none =>
        have hno := search_eq_none.mp hsearch
        simp only [gather,hconnected,Bool.not_true,Bool.false_eq_true,if_false,hr,hsearch,arriving]
        obtain ⟨hc',h⟩ := ih (hp.trans hpending) (hc.trans hconnected) hno
        refine ⟨hc'.trans (hc.trans hconnected),?_⟩
        rw [hu,Got.bytes]
        simp only [List.append_assoc] at h ⊢
        exact h
    | ended =>
      simp only [gather,hconnected,Bool.not_true,Bool.false_eq_true,if_false,hr,arriving,
        List.append_nil]
      refine ⟨hc.trans hconnected,.inr ⟨hacc,?_⟩⟩
      rw [hu,hp,hpending]
      rfl
    | fault last =>
      simp only [gather,hconnected,Bool.not_true,Bool.false_eq_true,if_false,hr,arriving,
        List.append_nil]
      refine ⟨hc.trans hconnected,.inr ⟨hacc,?_⟩⟩
      rw [hu,hp,hpending]
      rfl

/-- What comes does not depend on what is pending. -/
theorem arriving_pending (hread : ReadLaw read) (k : ℕ) (s : StreamState) (p : List UInt8) :
    arriving read k { s with pending := p } = arriving read k s := by
  induction k generalizing s with
  | zero => rfl
  | succ k ih =>
    rw [arriving,arriving,hread.apart]
    rcases read s with ⟨got,s'⟩
    cases got with
    | data b => exact congrArg (b++·) (ih s')
    | ended => rfl
    | fault last => rfl

theorem faultAhead_pending (hread : ReadLaw read) (k : ℕ) (s : StreamState) (p : List UInt8) :
    faultAhead read k { s with pending := p } = faultAhead read k s := by
  induction k generalizing s with
  | zero => rfl
  | succ k ih =>
    rw [faultAhead,faultAhead,hread.apart]
    rcases read s with ⟨got,s'⟩
    cases got with
    | data b => exact ih s'
    | ended => rfl
    | fault last => rfl

theorem take_moves (hread : ReadLaw read) (hgive : ∀ b, (give b).given = b) {limit : Limit} {s : StreamState}
    (hconnected : s.connected = true) : ∃ lost, Moves s (take read pattern give limit.reads s) lost ∧
      (lost = [] ↔ FindsOrBare read pattern limit s) := by
  cases hsearch : search pattern s.pending with
  | some i =>
    have hinfix : pattern <:+: s.pending := by
      rw [← search_isSome,hsearch]
      rfl
    refine ⟨[],?_,?_⟩
    · rw [take,hsearch]
      exact found_moves hgive s _
    · exact ⟨fun _ => .inl (List.infix_append_of_infix_left hinfix),fun _ => rfl⟩
  | none =>
    have hno := search_eq_none.mp hsearch
    obtain ⟨hc,hmoves⟩ := gather_moves hread hgive limit.reads
      (show ({ s with pending := [] } : StreamState).pending = [] from rfl) hconnected hno
    rw [arriving_pending hread] at hmoves
    have htake : take read pattern give limit.reads s =
        gather read pattern give limit.reads s.pending { s with pending := [] } := by rw [take,hsearch]
    rw [htake]
    obtain ⟨hfound,hbytes⟩ | ⟨hmissed,hbytes⟩ := hmoves
    · exact ⟨[],⟨hbytes,hc⟩,fun _ => .inl hfound,fun _ => rfl⟩
    · refine ⟨atHand read limit s,⟨hbytes,hc⟩,fun h => .inr h,?_⟩
      rintro (h | h)
      · exact absurd h hmissed
      · exact h

end Gather

theorem flatten_held (s : StreamState) : s.held.flatten = s.pending := by
  unfold StreamState.held
  split
  · next h => rw [h,List.flatten_nil]
  · simp

/-- A drain of a tail gives out all that comes, or meets a fault and gives out nothing. -/
theorem drainLoop_moves (k : ℕ) {out : List (List UInt8)} {s : StreamState} (hpending : s.pending = [])
    (hconnected : s.connected = true) : (Tail.drainLoop k out s).2.connected = s.connected ∧
      out.flatten++s.unread =
        (if faultAhead nextFrame k s then out.flatten++arriving nextFrame k s else [])++
          ((Tail.drainLoop k out s).1.given++((Tail.drainLoop k out s).2.pending++
            (Tail.drainLoop k out s).2.unread)) := by
  induction k generalizing out s with
  | zero => simp [Tail.drainLoop,faultAhead,Result.given,hpending]
  | succ k ih =>
    have hp := nextFrame_law.pending s
    have hc := nextFrame_law.connected s
    have hu := nextFrame_law.unread s
    rcases hr : nextFrame s with ⟨got,s'⟩
    rw [hr] at hp hc hu
    simp only at hp hc hu
    cases got with
    | data b =>
      simp only [Tail.drainLoop,hconnected,Bool.not_true,Bool.false_eq_true,if_false,hr,faultAhead,
        arriving]
      obtain ⟨hc',h⟩ := @ih (out++[b]) s' (hp.trans hpending) (hc.trans hconnected)
      refine ⟨hc'.trans (hc.trans hconnected),?_⟩
      rw [hu,Got.bytes]
      simp only [List.flatten_append,List.flatten_cons,List.flatten_nil,List.append_nil,
        List.append_assoc] at h ⊢
      exact h
    | ended =>
      simp [Tail.drainLoop,hconnected,hr,faultAhead,Result.given,hu,hp,hpending,Got.bytes,hc]
    | fault last =>
      simp [Tail.drainLoop,hconnected,hr,faultAhead,arriving,Result.given,hu,hp,hpending,Got.bytes,hc]

theorem drainPipe_moves (k : ℕ) {out : List (List UInt8)} {s : StreamState} (hpending : s.pending = []) :
    (drainPipe k out s).2.connected = s.connected ∧
      out.flatten++s.unread = (drainPipe k out s).1.given++((drainPipe k out s).2.pending++
        (drainPipe k out s).2.unread) := by
  induction k generalizing out s with
  | zero => simp [drainPipe,Result.given,hpending]
  | succ k ih =>
    cases hconnected : s.connected with
    | false => simp [drainPipe,hconnected,Result.given,hpending]
    | true =>
      have hp := readPipe_law.pending s
      have hc := readPipe_law.connected s
      have hu := readPipe_law.unread s
      rcases hr : readPipe s with ⟨got,s'⟩
      rw [hr] at hp hc hu
      simp only at hp hc hu
      cases got with
      | data b =>
        simp only [drainPipe,hconnected,Bool.not_true,Bool.false_eq_true,if_false,hr]
        obtain ⟨hc',h⟩ := @ih (out++[b]) s' (hp.trans hpending)
        refine ⟨hc'.trans (hc.trans hconnected),?_⟩
        rw [hu,Got.bytes]
        simp only [List.flatten_append,List.flatten_cons,List.flatten_nil,List.append_nil,
          List.append_assoc] at h ⊢
        exact h
      | ended => simp [drainPipe,hconnected,hr,Result.given,hu,hp,hpending,Got.bytes,hc]
      | fault last => simp [drainPipe,hconnected,hr,Result.given,hu,hp,hpending,Got.bytes,hc]

/-- The console's loop keeps what it reads, however it ends. -/
theorem awaitLoop_moves {pattern : List UInt8} {give : List UInt8 → Result}
    (hgive : ∀ b, (give b).given = b) (k : ℕ) {s : StreamState} :
    Moves s (Console.awaitLoop pattern give k s) [] := by
  induction k generalizing s with
  | zero =>
    unfold Console.awaitLoop
    split
    · exact ⟨rfl,rfl⟩
    · split
      · exact found_moves hgive s _
      · exact ⟨rfl,rfl⟩
  | succ k ih =>
    have hp := readPipe_law.pending s
    have hc := readPipe_law.connected s
    have hu := readPipe_law.unread s
    rcases hr : readPipe s with ⟨got,s'⟩
    rw [hr] at hp hc hu
    simp only at hp hc hu
    unfold Console.awaitLoop
    split
    · exact ⟨rfl,rfl⟩
    · split
      · exact found_moves hgive s _
      · simp only [hr]
        split
        · exact ⟨rfl,rfl⟩
        · cases got with
          | data b =>
            obtain ⟨hbytes,hconnected⟩ := ih (s := { s' with pending := s'.pending++b })
            refine ⟨?_,hconnected.trans hc⟩
            rw [← hbytes,hu,Got.bytes,← hp]
            simp only [List.append_assoc]
            rfl
          | ended => exact ⟨by rw [hu,← hp]; rfl,hc⟩
          | fault last =>
            simp only
            split
            · exact ⟨by rw [hu,← hp]; rfl,hc⟩
            · exact ⟨by rw [hu,← hp]; rfl,hc⟩

theorem Moves.refl (s : StreamState) {r : Result} (hr : r.given = []) : Moves s (r,s) [] :=
  ⟨by simp [hr],rfl⟩

theorem tail_next_moves (limit : Limit) (s : StreamState) : Moves s (Tail.next limit s) [] := by
  unfold Tail.next
  split
  · exact .refl s rfl
  · split
    · exact ⟨rfl,rfl⟩
    · next hpending =>
      split
      · exact .refl s rfl
      · split
        · exact ⟨rfl,rfl⟩
        · split
          · exact .refl s rfl
          · have hp := nextFrame_law.pending s
            have hc := nextFrame_law.connected s
            have hu := nextFrame_law.unread s
            simp only [ne_eq,not_not] at hpending
            rcases hr : nextFrame s with ⟨got,s'⟩
            rw [hr] at hp hc hu
            simp only at hp hc hu
            cases got <;> exact ⟨by simp [hu,hp,hpending,Got.bytes,Result.given],hc⟩

/-- A read of a console stream or a capture, where nothing is pending. -/
theorem read_moves {s : StreamState} (hpending : s.pending = []) :
    Moves s (match readPipe s with
      | (.data b,s) => (.bytes b,s)
      | (.ended,s) => (.nothing,s)
      | (.fault _,s) => (.error .fault,s)) [] := by
  have hp := readPipe_law.pending s
  have hc := readPipe_law.connected s
  have hu := readPipe_law.unread s
  rcases hr : readPipe s with ⟨got,s'⟩
  rw [hr] at hp hc hu
  simp only at hp hc hu
  cases got <;> exact ⟨by simp [hu,hp,hpending,Got.bytes,Result.given],hc⟩

theorem console_next_moves (limit : Limit) (s : StreamState) : Moves s (Console.next limit s) [] := by
  unfold Console.next
  split
  · exact .refl s rfl
  · split
    · exact ⟨rfl,rfl⟩
    · next hpending =>
      simp only [ne_eq,not_not] at hpending
      split
      · exact .refl s rfl
      · split
        · exact ⟨rfl,rfl⟩
        · split
          · exact ⟨rfl,rfl⟩
          · split
            · exact .refl s rfl
            · exact read_moves hpending

theorem capture_next_moves (limit : Limit) (s : StreamState) : Moves s (Capture.next limit s) [] := by
  unfold Capture.next
  split
  · exact .refl s rfl
  · split
    · exact ⟨rfl,rfl⟩
    · next hpending =>
      simp only [ne_eq,not_not] at hpending
      split
      · exact .refl s rfl
      · split
        · exact ⟨rfl,rfl⟩
        · split
          · exact .refl s rfl
          · exact read_moves hpending

theorem await_moves (kind : Kind) {give : List UInt8 → Result} (hgive : ∀ b, (give b).given = b)
    (pattern : List UInt8) (limit : Limit) {s : StreamState} (hconnected : s.connected = true) :
    ∃ lost, Moves s (match kind with
      | .tail => Tail.await pattern give limit s
      | .console => Console.await pattern give limit s
      | .capture => Capture.await pattern give limit s) lost ∧
      (lost = [] ↔ AwaitSpares kind pattern limit s) := by
  cases kind with
  | tail =>
    by_cases htext : text pattern = true
    · by_cases hlong : limit.tooLong = true
      · exact ⟨[],by simpa [Tail.await,htext,hlong] using Moves.refl s rfl,by simp [AwaitSpares,hlong]⟩
      · by_cases hpoisoned : s.poisoned = true
        · exact ⟨[],by simpa [Tail.await,htext,hlong,hpoisoned] using Moves.refl s rfl,
            by simp [AwaitSpares,hpoisoned]⟩
        · obtain ⟨lost,hmoves,hlost⟩ :=
            @take_moves nextFrame pattern give nextFrame_law hgive limit s hconnected
          exact ⟨lost,by simpa [Tail.await,htext,hlong,hpoisoned] using hmoves,
            by simpa [AwaitSpares,htext,hlong,hpoisoned] using hlost⟩
    · exact ⟨[],by simpa [Tail.await,htext] using Moves.refl s rfl,by simp [AwaitSpares,htext]⟩
  | console =>
    refine ⟨[],?_,by simp [AwaitSpares]⟩
    unfold Console.await
    dsimp only
    split
    · exact .refl s rfl
    · split
      · exact .refl s rfl
      · exact awaitLoop_moves hgive limit.reads
  | capture =>
    by_cases hlong : limit.tooLong = true
    · exact ⟨[],by simpa [Capture.await,hlong] using Moves.refl s rfl,by simp [AwaitSpares,hlong]⟩
    · by_cases hpoisoned : s.poisoned = true
      · exact ⟨[],by simpa [Capture.await,hlong,hpoisoned] using Moves.refl s rfl,
          by simp [AwaitSpares,hpoisoned]⟩
      · by_cases hempty : pattern = []
        · -- the panic comes when the pending bytes have been taken
          refine ⟨s.pending,?_,by simp [AwaitSpares,hlong,hpoisoned,hempty]⟩
          simp only [Capture.await,hlong,hpoisoned,hempty,if_true,Bool.false_eq_true,if_false]
          exact ⟨rfl,rfl⟩
        · obtain ⟨lost,hmoves,hlost⟩ :=
            @take_moves readPipe pattern give readPipe_law hgive limit s hconnected
          exact ⟨lost,by simpa [Capture.await,hlong,hpoisoned,hempty] using hmoves,
            by simpa [AwaitSpares,hlong,hpoisoned,hempty] using hlost⟩

theorem drainPipe_held (k : ℕ) (s : StreamState) :
    Moves s (drainPipe k s.held { s with pending := [] }) [] := by
  obtain ⟨hc,hbytes⟩ := @drainPipe_moves k s.held { s with pending := [] } rfl
  rw [flatten_held] at hbytes
  exact ⟨hbytes,hc⟩

theorem drain_moves (kind : Kind) (limit : Limit) {s : StreamState} (hconnected : s.connected = true) :
    ∃ lost, Moves s (call kind (.drain limit) s) lost ∧ (lost = [] ↔ Spares kind (.drain limit) s) := by
  cases kind with
  | tail =>
    by_cases hlong : limit.tooLong = true
    · exact ⟨[],by simpa [call,Tail.drain,hlong] using Moves.refl s rfl,by simp [Spares,hlong]⟩
    · by_cases hpoisoned : s.poisoned = true
      · exact ⟨[],by simpa [call,Tail.drain,hlong,hpoisoned] using Moves.refl s rfl,
          by simp [Spares,hpoisoned]⟩
      · obtain ⟨hc,hbytes⟩ := @drainLoop_moves limit.reads s.held { s with pending := [] } rfl hconnected
        rw [flatten_held,arriving_pending nextFrame_law] at hbytes
        have hahead : faultAhead nextFrame limit.reads { s with pending := [] } =
            faultAhead nextFrame limit.reads s := faultAhead_pending nextFrame_law ..
        rw [hahead] at hbytes
        have hdrain : call .tail (.drain limit) s =
            Tail.drainLoop limit.reads s.held { s with pending := [] } := by
          change Tail.drain limit s = _
          rw [Tail.drain,if_neg hlong,if_neg hpoisoned]
        rw [hdrain]
        refine ⟨_,⟨hbytes,hc⟩,?_⟩
        simp only [Spares,hlong,hpoisoned,atHand]
        split <;> simp_all
  | console =>
    refine ⟨[],?_,by simp [Spares]⟩
    change Moves s (Console.drain limit s) []
    unfold Console.drain
    split
    · exact .refl s rfl
    · split
      · exact .refl s rfl
      · exact drainPipe_held ..
  | capture =>
    refine ⟨[],?_,by simp [Spares]⟩
    change Moves s (Capture.drain limit s) []
    unfold Capture.drain
    split
    · exact .refl s rfl
    · split
      · exact .refl s rfl
      · split
        · exact ⟨by simp [Result.given,flatten_held,StreamState.unread],rfl⟩
        · exact drainPipe_held ..

/-- What a call loses, and when it is nothing. -/
theorem call_moves (kind : Kind) {c : Call} (hclose : c ≠ .close) {s : StreamState}
    (hconnected : s.connected = true) :
    ∃ lost, Moves s (call kind c s) lost ∧ (lost = [] ↔ Spares kind c s) := by
  cases c with
  | next limit =>
    refine ⟨[],?_,by cases kind <;> simp [Spares]⟩
    cases kind with
    | tail => exact tail_next_moves limit s
    | console => exact console_next_moves limit s
    | capture => exact capture_next_moves limit s
  | readUntil pattern limit =>
    obtain ⟨lost,hmoves,hlost⟩ := @await_moves kind .bytes (fun _ => rfl) pattern limit s hconnected
    exact ⟨lost,by cases kind <;> exact hmoves,by cases kind <;> exact hlost⟩
  | expect pattern limit =>
    obtain ⟨lost,hmoves,hlost⟩ := @await_moves kind .passed (fun _ => rfl) pattern limit s hconnected
    exact ⟨lost,by cases kind <;> exact hmoves,by cases kind <;> exact hlost⟩
  | drain limit => exact drain_moves kind limit hconnected
  | eof =>
    refine ⟨[],?_,by cases kind <;> simp [Spares]⟩
    cases kind with
    | tail =>
      change Moves s (Tail.eof s) []
      unfold Tail.eof
      split
      · exact .refl s rfl
      · split <;> exact .refl s rfl
    | console | capture =>
      change Moves s (pipeEof s) []
      unfold pipeEof
      split
      · exact .refl s rfl
      · split <;> exact .refl s rfl
  | close => exact absurd rfl hclose

/-- What a run has lost comes before all that is left. -/
theorem calls_moves (kind : Kind) {cs : List Call} (hclose : .close ∉ cs) {s : StreamState}
    (hconnected : s.connected = true) :
    ((calls kind cs s).1.flatMap Result.given++((calls kind cs s).2.pending++(calls kind cs s).2.unread)).length
        ≤ (s.pending++s.unread).length ∧
      (s.pending++s.unread = (calls kind cs s).1.flatMap Result.given++
          ((calls kind cs s).2.pending++(calls kind cs s).2.unread) ↔ SparesAll kind cs s) := by
  induction cs generalizing s with
  | nil => simp [calls,SparesAll]
  | cons c cs ih =>
    have hc : c ≠ .close := fun h => hclose (h ▸ List.mem_cons_self)
    have hcs : .close ∉ cs := fun h => hclose (List.mem_cons_of_mem _ h)
    obtain ⟨lost,⟨hbytes,hconnected'⟩,hlost⟩ := call_moves kind hc hconnected
    obtain ⟨hle,hiff⟩ := ih hcs (hconnected'.trans hconnected)
    have hbytesLength := congrArg List.length hbytes
    simp only [List.length_append] at hbytesLength hle
    simp only [calls,List.flatMap_cons,SparesAll,← hlost,← hiff]
    refine ⟨by simp only [List.length_append]; omega,?_,?_⟩
    · -- lost bytes would be missing from the length
      intro heq
      have hlength := congrArg List.length heq
      simp only [List.length_append] at hlength
      have hnil : lost = [] := List.length_eq_zero_iff.mp (by omega)
      refine ⟨hnil,?_⟩
      rw [hbytes,hnil,List.nil_append,List.append_assoc] at heq
      exact List.append_cancel_left heq
    · rintro ⟨hnil,heq⟩
      rw [hbytes,hnil,List.nil_append,heq,List.append_assoc]

/-- Of a stream nothing is lost by a run of calls exactly if no call of it loses what it gathers. -/
theorem nothing_dropped_iff (kind : Kind) (source : List Arrival) (cs : List Call) (hclose : .close ∉ cs) :
    source.flatMap Arrival.bytes = (calls kind cs (.opened source)).1.flatMap Result.given++
        ((calls kind cs (.opened source)).2.pending++(calls kind cs (.opened source)).2.unread) ↔
      SparesAll kind cs (.opened source) :=
  (@calls_moves kind cs hclose (.opened source) rfl).2

/-- A line in two pieces, and one call of each kind. -/
theorem nothing_dropped_iff_line : ([1,2,10,3] : List UInt8) =
    (calls .tail [.readUntil [10] ⟨2,false⟩,.next ⟨1,false⟩] (.opened [.piece [1,2],.piece [10,3]])).1.flatMap
      Result.given++
        ((calls .tail [.readUntil [10] ⟨2,false⟩,.next ⟨1,false⟩]
            (.opened [.piece [1,2],.piece [10,3]])).2.pending++
          (calls .tail [.readUntil [10] ⟨2,false⟩,.next ⟨1,false⟩]
            (.opened [.piece [1,2],.piece [10,3]])).2.unread) := by
  refine (nothing_dropped_iff .tail [.piece [1,2],.piece [10,3]]
    [.readUntil [10] ⟨2,false⟩,.next ⟨1,false⟩] (by decide)).mpr ⟨?_,trivial,trivial⟩
  exact fun _ _ _ => .inl (by decide)

/-- What has come before a timeout is gone, from a tail and from a capture. -/
theorem timeout_drops :
    (calls .tail [.readUntil [10] ⟨1,false⟩,.next ⟨1,false⟩] (.opened [.piece [1,2],.piece [3]])).1 =
        [.error .timedOut,.bytes [3]] ∧
      (calls .capture [.expect [10] ⟨1,false⟩,.next ⟨1,false⟩] (.opened [.piece [1,2],.piece [3]])).1 =
        [.error .timedOut,.bytes [3]] ∧
      ¬∀ kind source cs, .close ∉ cs → source.flatMap Arrival.bytes =
        (calls kind cs (.opened source)).1.flatMap Result.given++
          ((calls kind cs (.opened source)).2.pending++(calls kind cs (.opened source)).2.unread) := by
  refine ⟨by decide,by decide,?_⟩
  intro h
  have := h .tail [.piece [1,2],.piece [3]] [.readUntil [10] ⟨1,false⟩,.next ⟨1,false⟩] (by decide)
  exact absurd this (by decide)

end Provium.Streams
