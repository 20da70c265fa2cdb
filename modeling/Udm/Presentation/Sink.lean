import Udm.Presentation

/-!
# A sink that fails

A write the stream does not accept leaves it failed, with some first bytes of what was
to be written. What is written after that is lost, so whatever happens, the sink holds
the first bytes of all that was written to it (`Fstream.Follows`).
-/

namespace Udm

/-- The stream holds the first bytes of `bs`, and all of them unless it has failed. -/
structure Fstream.Follows (fs : Fstream) (bs : List Byte) : Prop where
  /-- Nothing else is in the file. -/
  isPrefix : fs.content <+: bs
  /-- As long as the stream is good, nothing is missing. -/
  eq : fs.failed = false → fs.content = bs

namespace Fstream.Follows

variable {fs : Fstream} {bs : List Byte}

/-- Whatever becomes of a write, the stream follows what was to be written. -/
theorem write (h : fs.Follows bs) (o : WriteOutcome) (buff : Block Byte) (n : ℤ) :
    (fs.write o buff n).Follows (bs ++ buff.load 0 n.toNat) := by
  by_cases hacc : fs.accepts o n
  · rw [write_of_accepts hacc]
    have heq := h.eq (accepts_iff.1 hacc).1
    exact ⟨by rw [heq], fun _ => by rw [heq]⟩
  simp only [Fstream.write, if_neg hacc]
  refine ⟨?_, fun hfailed => Bool.noConfusion hfailed⟩
  -- Nothing is appended to a failed stream.
  have hnone : fs.content ++ [] <+: bs ++ buff.load 0 n.toNat := by
    rw [List.append_nil]
    exact h.isPrefix.trans (List.prefix_append _ _)
  cases o with
  | written => exact hnone
  | failed k =>
    cases hf : fs.failed with
    | true => exact hnone
    | false =>
      have hle : min k (n.toNat - 1) ≤ n.toNat := (min_le_right _ _).trans (Nat.sub_le _ _)
      simp only [h.eq hf, Bool.false_eq_true, if_false]
      rw [List.prefix_append_right_inj, ← Nat.min_eq_left hle, ← Block.take_load]
      exact List.take_prefix _ _

end Fstream.Follows

namespace PresentationProcessor

variable {env : Env} {p : Process} {content : List Byte}

/-- The sink follows the payloads of the buffers that are written. -/
theorem follows_writes (hmode : p.rxFactory.sourceData.fmode = .OUT) (bs : List MemBuff)
    (h : p.rxFactory.sourceData.fs.Follows content) :
    (writes env bs p).rxFactory.sourceData.fs.Follows
      (content ++ (bs.filter fun b => b.data.header.isPayld).flatMap MemBuff.payload) := by
  induction bs generalizing p content with
  | nil => simpa [writes] using h
  | cons b bs ih =>
    rw [writes]
    by_cases hb : b.data.header.isPayld
    · have hwrite : (write env b p).rxFactory.sourceData.fs.Follows (content ++ b.payload) := by
        rw [fs_write env b hmode]
        exact h.write _ _ _
      have := @ih (write env b p) _ (by simpa using hmode) hwrite
      simpa [hb] using this
    · simpa [hb] using ih hmode h

/-- The stream does not fail when its writes succeed. -/
theorem failed_writes (hmode : p.rxFactory.sourceData.fmode = .OUT)
    (hfs : p.rxFactory.sourceData.fs.failed = false) (hw : ∀ i, env.write i = .written)
    {bs : List MemBuff} (hbs : ∀ b ∈ bs, 0 ≤ DataFactory.writeLength b.size) :
    (writes env bs p).rxFactory.sourceData.fs.failed = false := by
  induction bs generalizing p with
  | nil => exact hfs
  | cons b bs ih =>
    rw [List.forall_mem_cons] at hbs
    rw [writes]
    split
    · refine ih (by simpa using hmode) ?_ hbs.2
      have hacc : (record env p b).Accepted := Fstream.accepts_iff.2 ⟨hfs, hbs.1, hw _⟩
      rw [fs_write_of_accepted hmode hacc]
      exact hfs
    · exact ih hmode hfs hbs.2

end PresentationProcessor

end Udm
