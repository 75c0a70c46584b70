import Provium.Lib.OpenFile
import Provium.Protocol.Frame

/-! `make_sparse`: a file is copied beside itself, its runs of zeros are skipped, and the copy is renamed over it,
`perf.rs`. -/
namespace Provium.Host
open Lib Provium.Protocol

/-- What a `read` does: it takes at least one byte and at most so many more, or it fails. -/
inductive ReadArrival where
  | take (more : ℕ)
  | fail (e : IoErrorKind)
  deriving DecidableEq, Repr

/-- `SPARSE_BLOCK` -/
def sparseBlock : ℕ := 4096

/-- The file at the path: which one it is, and its bytes. -/
structure FileNode where
  id : ℕ
  bytes : List UInt8
  deriving DecidableEq, Repr

/-- How the calls of `make_sparse` go; `outputs` are those of the loop on the copy. After the script a `read` fills
the buffer. -/
structure SparseCalls where
  metadata : Option IoErrorKind
  openInput : Option IoErrorKind
  create : Option IoErrorKind
  reads : List ReadArrival
  outputs : ℕ → Option IoErrorKind
  seekEnd : Option IoErrorKind
  setLen : Option IoErrorKind
  persist : Option IoErrorKind
  metadataAgain : Option IoErrorKind
  newId : ℕ

/-- `input.read(&mut buf)` -/
def readChunk (reads : List ReadArrival) (rest : List UInt8) : Except IoErrorKind (List UInt8) :=
  match reads.head? with
  | some (.take more) => .ok (rest.take (min (more+1) sparseBlock))
  | some (.fail e) => .error e
  | none => .ok (rest.take sparseBlock)

/-- What is done with a chunk. -/
def putChunk (chunk : List UInt8) (output : OpenFile) : OpenFile :=
  if chunk.all (· == 0) then output.skip chunk.length else output.write chunk

theorem readChunk_eq_ok {reads : List ReadArrival} {rest chunk : List UInt8} (h : readChunk reads rest = .ok chunk) :
    chunk = rest.take chunk.length ∧ (chunk = [] → rest = []) := by
  have htake : ∀ n, chunk = rest.take (n+1) → chunk = rest.take chunk.length ∧ (chunk = [] → rest = []) := by
    rintro n rfl
    refine ⟨?_,fun hnil => ?_⟩
    · rw [List.length_take,← List.take_take,List.take_length]
    · simpa using hnil
  unfold readChunk at h
  split at h
  · next more _ =>
    cases h
    exact htake (min more 4095) (by rw [sparseBlock]; congr 1; omega)
  · cases h
  · cases h
    exact htake 4095 rfl

/-- The loop, on what is left of the input. -/
def copyLoop (outputs : ℕ → Option IoErrorKind) (reads : List ReadArrival) (rest : List UInt8) (i : ℕ)
    (output : OpenFile) : Except IoErrorKind OpenFile :=
  match _h : readChunk reads rest with
  | .error e => .error e
  | .ok [] => .ok output
  | .ok (b::chunk) => match outputs i with
    | some e => .error e
    | none => copyLoop outputs reads.tail (rest.drop (b::chunk).length) (i+1) (putChunk (b::chunk) output)
termination_by rest.length
decreasing_by
  have hlength := congrArg List.length (readChunk_eq_ok _h).1
  rw [List.length_take,List.length_cons] at hlength
  rw [List.length_drop,List.length_cons]
  omega

/-- `?` on a call that changes nothing at the path. -/
def attempt (failure : Option IoErrorKind) (node : FileNode) (k : Except IoErrorKind ℤ × FileNode) :
    Except IoErrorKind ℤ × FileNode :=
  match failure with
  | some e => (.error e,node)
  | none => k

def makeSparse (c : SparseCalls) (node : FileNode) : Except IoErrorKind ℤ × FileNode :=
  attempt c.metadata node <| attempt c.openInput node <| attempt c.create node <|
    match copyLoop c.outputs c.reads node.bytes 0 ⟨[],0⟩ with
    | .error e => (.error e,node)
    | .ok output =>
      let published : FileNode := ⟨c.newId,(output.setLen node.bytes.length).bytes⟩
      attempt c.seekEnd node <| attempt c.setLen node <| attempt c.persist node <|
        attempt c.metadataAgain published (.ok (node.bytes.length-published.bytes.length),published)

/-! ## The copy -/

/-- A chunk of zeros is a hole of its length. -/
theorem putChunk_holds {output : OpenFile} {content : List UInt8} (h : output.Holds content) (chunk : List UInt8) :
    (putChunk chunk output).Holds (content++chunk) := by
  unfold putChunk
  split_ifs with hzero
  · have hchunk : chunk = List.replicate chunk.length 0 := by
      refine List.eq_replicate_iff.mpr ⟨rfl,fun b hb => ?_⟩
      simpa using List.all_eq_true.mp hzero b hb
    have hskip := h.skip chunk.length
    rwa [← hchunk] at hskip
  · exact h.write chunk

/-- What is copied of the input is in the copy. -/
theorem copyLoop_holds {outputs : ℕ → Option IoErrorKind} {reads : List ReadArrival} {rest content : List UInt8}
    {i : ℕ} {output output' : OpenFile} (h : output.Holds content)
    (hloop : copyLoop outputs reads rest i output = .ok output') : output'.Holds (content++rest) := by
  induction hn : rest.length using Nat.strong_induction_on generalizing reads rest i output content with
  | _ n ih =>
    subst hn
    unfold copyLoop at hloop
    split at hloop
    · cases hloop
    · next hread =>
      cases hloop
      rw [(readChunk_eq_ok hread).2 rfl,List.append_nil]
      exact h
    · next b chunk hread =>
      have hchunk := (readChunk_eq_ok hread).1
      split at hloop
      · cases hloop
      · have hlt : (rest.drop (b::chunk).length).length < rest.length := by
          have hlength := congrArg List.length hchunk
          rw [List.length_take,List.length_cons] at hlength
          rw [List.length_drop,List.length_cons]
          omega
        have hrest := ih _ hlt (putChunk_holds h (b::chunk)) hloop rfl
        rw [List.append_assoc] at hrest
        have hsplit : b::chunk++rest.drop (b::chunk).length = rest := by
          conv_rhs => rw [← List.take_append_drop (b::chunk).length rest,← hchunk]
        rwa [hsplit] at hrest

/-- What is true of a call that fails and of what follows one that does not. -/
theorem attempt_of {P : Except IoErrorKind ℤ × FileNode → Prop} {failure : Option IoErrorKind} {node : FileNode}
    {k : Except IoErrorKind ℤ × FileNode} (hfail : ∀ e, failure = some e → P (.error e,node)) (hk : P k) :
    P (attempt failure node k) := by
  cases hf : failure with
  | none => exact hk
  | some e => exact hfail e hf

/-- The file at the path has the bytes that it had; where `make_sparse` fails, save in its last look at what it has
published, it is the very same file. -/
def Preserves (c : SparseCalls) (node : FileNode) (result : Except IoErrorKind ℤ × FileNode) : Prop :=
  result.2.bytes = node.bytes ∧ ∀ e, result.1 = .error e → result.2 = node ∨ c.metadataAgain = some e

theorem preserves_error (c : SparseCalls) (node : FileNode) (e : IoErrorKind) : Preserves c node (.error e,node) :=
  ⟨rfl,fun _ _ => .inl rfl⟩

/-- However the calls go and however short the reads are. -/
theorem make_sparse_preserves (c : SparseCalls) (node : FileNode) : Preserves c node (makeSparse c node) := by
  have hattempt : ∀ failure k, Preserves c node k → Preserves c node (attempt failure node k) :=
    fun failure k hk => attempt_of (fun e _ => preserves_error c node e) hk
  unfold makeSparse
  refine hattempt _ _ (hattempt _ _ (hattempt _ _ ?_))
  cases hloop : copyLoop c.outputs c.reads node.bytes 0 ⟨[],0⟩ with
  | error e => exact preserves_error c node e
  | ok output =>
    have hstart : (⟨[],0⟩ : OpenFile).Holds [] := ⟨Nat.le_refl 0,rfl⟩
    have hbytes : (output.setLen node.bytes.length).bytes = node.bytes := (copyLoop_holds hstart hloop).setLen
    refine hattempt _ _ (hattempt _ _ (hattempt _ _ ?_))
    refine attempt_of (fun e he => ⟨hbytes,fun e' he' => ?_⟩) ⟨hbytes,fun e he => by cases he⟩
    cases he'
    exact .inr he

end Provium.Host
