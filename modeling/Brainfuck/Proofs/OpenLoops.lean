import Brainfuck.Proofs.Partners

/-!
What the builder holds between two opcodes. For every loop that is still open it keeps a frame:
where the loop began, and the instructions that stand before it in the body around it. A loop is
still open where its bracket has no partner yet, so the frames begin at the brackets without a
partner, and at no others (`Builder.Tracks.mem_starts_iff`). Read from the outermost frame inward,
with a bracket behind each, the instructions spell the opcodes that were taken
(`Builder.toList_text`), and the bracket of a frame stands where the spelling has come to by then
(`Frame.Placed`). So every opcode is held once, and in the body that it belongs to: between two
brackets that are open stand the opcodes of the instructions that the frame of the second one keeps
(`Frame.Placed.opcodes_enclosing`).
-/

set_option autoImplicit false
set_option relaxedAutoImplicit false

namespace Brainfuck

namespace Frame

/-- Where the body inside the innermost of the open loops begins. -/
def inside : List Frame → Nat
  | [] => 0
  | frame :: _ => frame.start + 1

/-- Each loop began behind what the frames around it spell and the instructions before it. -/
def Placed : List Frame → Prop
  | [] => True
  | frame :: frames =>
    frame.start = (spelled frames ++ Program.opcodes frame.enclosing.reverse).length ∧
      Placed frames

/-- The text of the open loops: the instructions before each and its bracket, the outermost
first. -/
def text : List Frame → String
  | [] => ""
  | frame :: frames => text frames ++ Program.text frame.enclosing.reverse ++ "["

variable {frame : Frame} {frames outer : List Frame}

theorem toList_text (frames : List Frame) :
    (text frames).toList = (spelled frames).map Opcode.symbol := by
  induction frames with
  | nil => rfl
  | cons frame frames ih =>
    rw [text, spelled, String.toList_append, String.toList_append, ih, Program.toList_text,
      List.map_append, List.map_append, List.append_assoc]
    rfl

theorem spelled_prefix_of_suffix (h : outer <:+ frames) : spelled outer <+: spelled frames := by
  induction frames with
  | nil =>
    obtain rfl := List.suffix_nil.mp h
    exact List.prefix_rfl
  | cons frame frames ih =>
    rcases List.suffix_cons_iff.mp h with rfl | h
    · exact List.prefix_rfl
    · exact (ih h).trans (List.prefix_append _ _)

namespace Placed

theorem of_suffix (h : Placed frames) (hsuffix : outer <:+ frames) : Placed outer := by
  induction frames with
  | nil => rwa [List.suffix_nil.mp hsuffix]
  | cons frame frames ih =>
    rcases List.suffix_cons_iff.mp hsuffix with rfl | hsuffix
    · exact h
    · exact ih h.2 hsuffix

theorem length_spelled (h : Placed frames) : (spelled frames).length = inside frames := by
  cases frames with
  | nil => rfl
  | cons frame frames =>
    rw [inside, h.1, spelled, ← List.append_assoc, List.length_append, List.length_singleton]

theorem inside_le_start (h : Placed (frame :: frames)) : inside frames ≤ frame.start := by
  rw [h.1, List.length_append, h.2.length_spelled]
  exact Nat.le_add_right _ _

theorem start_lt_inside (h : Placed frames) (hframe : frame ∈ frames) :
    frame.start < inside frames := by
  induction frames with
  | nil => cases hframe
  | cons first frames ih =>
    rw [inside]
    rcases List.mem_cons.mp hframe with rfl | hframe
    · exact Nat.lt_succ_self frame.start
    · exact Nat.lt_succ_of_lt ((ih h.2 hframe).trans_le h.inside_le_start)

/-- Of two open loops, the inner one began later. -/
theorem pairwise_start (h : Placed frames) :
    frames.Pairwise fun inner outer ↦ outer.start < inner.start := by
  induction frames with
  | nil => exact .nil
  | cons frame frames ih =>
    refine List.pairwise_cons.mpr ⟨fun outer houter ↦ ?_, ih h.2⟩
    exact (h.2.start_lt_inside houter).trans_le h.inside_le_start

/-- The instructions that a frame keeps are those between the bracket around them and its own. -/
theorem opcodes_enclosing {taken : List Opcode} (h : Placed frames)
    (hspelled : spelled frames <+: taken) (hsuffix : frame :: outer <:+ frames) :
    Program.opcodes frame.enclosing.reverse = (taken.take frame.start).drop (inside outer) := by
  obtain ⟨hstart, houter⟩ := h.of_suffix hsuffix
  obtain ⟨more, rfl⟩ := (spelled_prefix_of_suffix hsuffix).trans hspelled
  rw [spelled, ← List.append_assoc, List.append_assoc, hstart, List.take_left,
    ← houter.length_spelled, List.drop_left]

end Placed

end Frame

/-! ### Loops that are open -/

/-- A bracket stays open if it has no partner. -/
theorem staysOpen_iff {ops : List Opcode} {p : Nat} :
    StaysOpen ops p ↔ ops[p]? = some .loopBegin ∧ ∀ q, ¬ Partners ops p q := by
  constructor
  · intro hopen
    exact ⟨hopen.1, fun q ↦ ((unmatched_iff.mpr (.inl hopen)).2 q).1⟩
  · rintro ⟨hget, hnone⟩
    refine ⟨hget, fun k hpk _ ↦ ?_⟩
    by_contra hnot
    obtain ⟨q, hpartners⟩ := exists_partners_of_loopBegin hget hpk (Int.not_lt.mp hnot)
    exact hnone q hpartners

namespace OpenFrames

variable {ops : List Opcode} {frames : List Frame} {p : Nat}

theorem staysOpen (h : OpenFrames ops frames) {frame : Frame} (hframe : frame ∈ frames) :
    StaysOpen ops frame.start := by
  induction frames with
  | nil => cases hframe
  | cons first frames ih =>
    obtain ⟨hget, hstart, habove, hframes⟩ := h
    rcases List.mem_cons.mp hframe with rfl | hframe
    · refine ⟨hget, fun k hk hle ↦ ?_⟩
      rw [height, hstart]
      exact habove k hk hle
    · exact ih hframes hframe

/-- There is a frame for a bracket that stays open at a height where a frame began: from either of
the two places on, the other one would be too low. -/
theorem exists_frame (h : OpenFrames ops frames) (hopen : StaysOpen ops p)
    (hnonneg : 0 ≤ height ops p) (hlt : height ops p < frames.length) :
    ∃ frame ∈ frames, frame.start = p := by
  induction frames with
  | nil =>
    rw [List.length_nil, Int.natCast_zero] at hlt
    omega
  | cons frame frames ih =>
    obtain ⟨hget, hstart, habove, hframes⟩ := h
    rw [List.length_cons] at hlt
    -- At the height of this frame it is this one, below that it is one around it.
    by_cases hsame : height ops p = frames.length
    · refine ⟨frame, List.mem_cons_self, ?_⟩
      obtain ⟨hpget, hpabove⟩ := hopen
      obtain ⟨hplt, -⟩ := List.getElem?_eq_some_iff.mp hpget
      obtain ⟨hflt, -⟩ := List.getElem?_eq_some_iff.mp hget
      change height ops frame.start = frames.length at hstart
      rcases Nat.lt_trichotomy frame.start p with hbefore | heq | hbehind
      · have hhigher : (frames.length : Int) < height ops p := habove p hbefore hplt.le
        omega
      · exact heq
      · have hhigher := hpabove frame.start hbehind hflt.le
        omega
    · obtain ⟨outer, houter, hp⟩ := ih hframes (by omega)
      exact ⟨outer, List.mem_cons_of_mem _ houter, hp⟩

end OpenFrames

namespace Builder

/-- Where the open loops began, the outermost first. -/
def starts (b : Builder) : List Nat := (b.frames.map Frame.start).reverse

/-- The text of what the builder holds: that of the open loops, and the instructions of the
current body. -/
def text (b : Builder) : String := Frame.text b.frames ++ Program.text b.body.reverse

theorem toList_text (b : Builder) : b.text.toList = b.spelled.map Opcode.symbol := by
  rw [text, spelled, String.toList_append, Frame.toList_text, Program.toList_text,
    List.map_append]
  rfl

theorem mem_starts {b : Builder} {p : Nat} :
    p ∈ b.starts ↔ ∃ frame ∈ b.frames, frame.start = p := by
  rw [starts, List.mem_reverse, List.mem_map]

/-- The frames of a builder begin at the brackets that have no partner among what was taken. -/
theorem Tracks.mem_starts_iff {b : Builder} {taken : List Opcode} (h : b.Tracks taken) (p : Nat) :
    p ∈ b.starts ↔ taken[p]? = some .loopBegin ∧ ∀ q, ¬ Partners taken p q := by
  rw [mem_starts, ← staysOpen_iff]
  constructor
  · rintro ⟨frame, hframe, rfl⟩
    exact h.openFrames.staysOpen hframe
  · intro hopen
    obtain ⟨hplt, -⟩ := List.getElem?_eq_some_iff.mp hopen.1
    have hend := hopen.2 taken.length hplt le_rfl
    exact h.openFrames.exists_frame hopen (h.neverExceeds p hplt.le) (h.length_frames ▸ hend)

/-- The count of a builder is where it has come to in its spelling, and each frame stands where
its loop began. -/
def InPlace (b : Builder) : Prop := b.count = b.spelled.length ∧ Frame.Placed b.frames

theorem InPlace.push {b b' : Builder} {o : Opcode} (h : b.InPlace) (hpush : b.push o = .ok b') :
    b'.InPlace := by
  obtain ⟨hcount, hplaced⟩ := h
  have hspelled : b'.spelled.length = b.count + 1 := by
    rw [spelled_push hpush, List.length_append, List.length_singleton, hcount]
  rcases push_eq_ok hpush with ⟨c, -, rfl⟩ | ⟨-, rfl⟩ | ⟨frame, frames, -, hframes, rfl⟩
  · exact ⟨hspelled.symm, hplaced⟩
  · exact ⟨hspelled.symm, hcount, hplaced⟩
  · rw [hframes] at hplaced
    exact ⟨hspelled.symm, hplaced.2⟩

theorem inPlace_of_foldlM_push {taken : List Opcode} {b : Builder}
    (hread : taken.foldlM push empty = .ok b) : b.InPlace :=
  foldlM_push_invariant (P := fun _ b ↦ b.InPlace) ⟨rfl, trivial⟩ InPlace.push hread

/-- What a builder holds of the opcodes that it has taken. -/
structure Holds (b : Builder) (taken : List Opcode) : Prop where
  count_eq : b.count = taken.length
  /-- There is a frame for every loop that is open. -/
  length_frames : (b.frames.length : Int) = taken.count .loopBegin - taken.count .loopEnd
  pairwise_starts : b.starts.Pairwise (· < ·)
  /-- The open loops are those whose bracket has no partner. -/
  mem_starts_iff (p : Nat) :
    p ∈ b.starts ↔ taken[p]? = some .loopBegin ∧ ∀ q, ¬ Partners taken p q
  text_eq : b.text = String.ofList (taken.map Opcode.symbol)
  /-- What a frame keeps stood between the bracket of the frame around it and its own. -/
  opcodes_enclosing {frame : Frame} {outer : List Frame} :
    frame :: outer <:+ b.frames →
      Program.opcodes frame.enclosing.reverse = (taken.take frame.start).drop (Frame.inside outer)
  /-- The current body is all that stood behind the innermost bracket that is open. -/
  opcodes_body : Program.opcodes b.body.reverse = taken.drop (Frame.inside b.frames)

theorem holds_of_foldlM_push {taken : List Opcode} {b : Builder}
    (hread : taken.foldlM push empty = .ok b) : b.Holds taken := by
  have htracks := tracks_of_foldlM_push hread
  have hplaced := (inPlace_of_foldlM_push hread).2
  have hspelled : Frame.spelled b.frames ++ Program.opcodes b.body.reverse = taken :=
    spelled_of_foldlM_push hread
  refine ⟨htracks.count_eq, ?_, ?_, htracks.mem_starts_iff, ?_, fun hsuffix ↦ ?_, ?_⟩
  · rw [htracks.length_frames, nesting, List.take_length]
  · rw [starts, List.pairwise_reverse, List.pairwise_map]
    exact hplaced.pairwise_start
  · rw [← String.toList_inj, toList_text, String.toList_ofList, spelled, hspelled]
  · exact hplaced.opcodes_enclosing (hspelled ▸ List.prefix_append _ _) hsuffix
  · rw [← hspelled, ← hplaced.length_spelled, List.drop_left]

end Builder

/-- What parsing has built when it has read some part of a sequence without objection. There is a
frame for each bracket of that part that opens a loop and has no partner in it, in their order.
The bodies around the open loops, from the outermost inward and with a bracket behind each, and
then the current body have as their text the symbols that were read, and every one of them holds
what stood between its brackets. The rest of the sequence is read from there. -/
theorem builder_holds_what_was_read (ops : List Opcode) (k : Nat) (b : Builder)
    (hread : (ops.take k).foldlM Builder.push .empty = .ok b) :
    b.Holds (ops.take k) ∧
      parse ops = ((ops.drop k).foldlM Builder.push b).bind Builder.finish := by
  refine ⟨Builder.holds_of_foldlM_push hread, ?_⟩
  have hwhole : ops.foldlM Builder.push .empty = (ops.drop k).foldlM Builder.push b := by
    conv_lhs => rw [← List.take_append_drop k ops, List.foldlM_append, hread]
    rfl
  rw [parse_eq_bind, hwhole]

/-- Reading into a second open loop, behind one that is closed already. -/
theorem builder_holds_what_was_read_closed_between :
    ((scan "+[>[-]<[.]]").take 9).foldlM Builder.push .empty =
        .ok ⟨9, [⟨7, [.command .moveLeft, .loop [.command .decrement], .command .moveRight]⟩,
          ⟨1, [.command .increment]⟩], [.command .write]⟩ ∧
      Builder.text ⟨9, [⟨7, [.command .moveLeft, .loop [.command .decrement], .command .moveRight]⟩,
        ⟨1, [.command .increment]⟩], [.command .write]⟩ = "+[>[-]<[." ∧
      (∀ p, p ∈ [1, 7] ↔ (scan "+[>[-]<[.")[p]? = some .loopBegin ∧
        ∀ q, ¬ Partners (scan "+[>[-]<[.") p q) ∧
      parse (scan "+[>[-]<[.]]") = .ok [.command .increment, .loop [.command .moveRight,
        .loop [.command .decrement], .command .moveLeft, .loop [.command .write]]] := by
  have hread : ((scan "+[>[-]<[.]]").take 9).foldlM Builder.push .empty =
      .ok ⟨9, [⟨7, [.command .moveLeft, .loop [.command .decrement], .command .moveRight]⟩,
        ⟨1, [.command .increment]⟩], [.command .write]⟩ := rfl
  obtain ⟨hholds, hparse⟩ := builder_holds_what_was_read _ _ _ hread
  exact ⟨hread, hholds.text_eq, hholds.mem_starts_iff, hparse⟩

end Brainfuck
