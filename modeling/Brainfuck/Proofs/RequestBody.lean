import Brainfuck.Proofs.Decoding
import Brainfuck.Proofs.RunRequest

/-!
Requests for every code and every input. What a request says is read out of its body, through a
decoder, a scanner of tokens and a reader of values, so it is not clear from the start that every
pair of texts is what some request brings. Written as strings of a JSON object they are: a
character that cannot stand in a string as it is stands there in an escaped form, and either form
is read as the character (`Token.stringFrom_escape`). Strings and punctuation take the reader from
one member to the next (`Reader.reads_member`), so the object is read as it was written
(`ofText_writeObject`), and the request brings the code and the input (`runTexts?_toRun`).
-/

set_option autoImplicit false
set_option relaxedAutoImplicit false

namespace Brainfuck

namespace Json

open Text.Quoted (doubleQuote backslash)

/-! ### Writing -/

/-- A character as it stands inside of a string. -/
def escape (c : Char) : List Char :=
  if c = doubleQuote ∨ c = backslash then [backslash, c]
  else if c.toNat < 0x20 then backslash :: 'u' :: Text.Hex.write 4 c.toNat
  else [c]

/-- A text between its quotes. -/
def quote (text : String) : List Char :=
  doubleQuote :: (text.toList.flatMap escape ++ [doubleQuote])

def writeMember (member : String × String) : List Char :=
  quote member.1 ++ ':' :: quote member.2

/-- An object whose members are strings. -/
def writeObject (first : String × String) (others : List (String × String)) : List Char :=
  Char.ofNat 0x7b :: (writeMember first ++
    (others.flatMap (fun member ↦ ',' :: writeMember member) ++ [Char.ofNat 0x7d]))

/-! ### Strings -/

namespace Token

theorem backslash_ne_doubleQuote : backslash ≠ doubleQuote := by decide

theorem length_write_four {n : Nat} (hn : n < 0x20) : (Text.Hex.write 4 n).length = 4 := by
  revert n
  decide +kernel

theorem numericEscape_write {n : Nat} (hn : n < 0x20) (c : Char) (rest : List Char) :
    numericEscape (Text.Hex.write 4 n ++ c :: rest) = .ok (Char.ofNat n, 4) := by
  have hlength := length_write_four hn
  have hvalue :
      (Text.Hex.write 4 n).foldlM (fun n c ↦ (Text.Hex.value? c).map (16 * n + ·)) 0 = some n := by
    clear hlength
    revert n
    decide +kernel
  have hunit : hexUnit? (Text.Hex.write 4 n ++ c :: rest) = some n := by
    have hlong : ¬ ((Text.Hex.write 4 n ++ c :: rest).take 5).length < 5 := by
      rw [List.length_take, List.length_append, hlength, List.length_cons]
      omega
    rw [hexUnit?, if_neg hlong, List.take_left' hlength, hvalue]
  have hhigh : isHighSurrogate n = false := by
    simp only [isHighSurrogate, Bool.and_eq_false_iff, decide_eq_false_iff_not]
    omega
  have hlow : isLowSurrogate n = false := by
    simp only [isLowSurrogate, Bool.and_eq_false_iff, decide_eq_false_iff_not]
    omega
  simp only [numericEscape, hunit, hhigh, Bool.false_and, charOfUnit, hlow, Bool.or_self]
  rfl

/-- A character that is written is read back. -/
theorem stringFrom_escape (start : Nat) (read : List Char) (offset : Nat) (c d : Char)
    (rest : List Char) :
    ∃ offset', stringFrom start read offset (escape c ++ d :: rest) =
      stringFrom start (c :: read) offset' (d :: rest) := by
  unfold escape
  by_cases hmark : c = doubleQuote ∨ c = backslash
  · rw [if_pos hmark]
    refine ⟨offset + 2, ?_⟩
    rcases hmark with rfl | rfl
    · exact stringFrom.eq_def _ _ _ _
    · exact stringFrom.eq_def _ _ _ _
  · rw [if_neg hmark]
    obtain ⟨hquote, hbackslash⟩ := not_or.mp hmark
    by_cases hcontrol : c.toNat < 0x20
    · rw [if_pos hcontrol]
      refine ⟨offset + 6, ?_⟩
      have hescape := numericEscape_write hcontrol d rest
      rw [Char.ofNat_toNat] at hescape
      have hdrop : (Text.Hex.write 4 c.toNat ++ d :: rest).drop 4 = d :: rest :=
        List.drop_left' (length_write_four hcontrol)
      rw [List.cons_append, List.cons_append, stringFrom.eq_def]
      simp only [if_neg backslash_ne_doubleQuote, if_true, hescape, hdrop]
    · rw [if_neg hcontrol]
      refine ⟨offset + 1, ?_⟩
      rw [List.singleton_append, stringFrom.eq_def start read offset (c :: d :: rest)]
      simp only [if_neg hquote, if_neg hbackslash, if_neg hcontrol]

/-- A string that is written is read back, and what follows it is left. -/
theorem stringFrom_flatMap_escape (start : Nat) (read : List Char) (offset : Nat)
    (text rest : List Char) :
    ∃ next, stringFrom start read offset (text.flatMap escape ++ doubleQuote :: rest) =
      .ok (String.ofList (read.reverse ++ text), next, rest) := by
  induction text generalizing read offset with
  | nil =>
    refine ⟨offset + 1, ?_⟩
    rw [List.flatMap_nil, List.nil_append, List.append_nil, stringFrom.eq_def]
    simp only [if_true]
  | cons c text ih =>
    rw [List.flatMap_cons, List.append_assoc]
    -- A character by number is read only if another follows: at the latest, the closing quote.
    obtain ⟨d, rest', hrest⟩ :
        ∃ d rest', text.flatMap escape ++ doubleQuote :: rest = d :: rest' :=
      List.exists_cons_of_ne_nil (by simp)
    obtain ⟨offset', hchar⟩ := stringFrom_escape start read offset c d rest'
    obtain ⟨next, hread⟩ := ih (c :: read) offset'
    refine ⟨next, ?_⟩
    rw [hrest, hchar, ← hrest, hread, List.reverse_cons, List.append_assoc, List.singleton_append]

theorem first_quote (offset : Nat) (text : String) (rest : List Char) :
    ∃ next, first offset (quote text ++ rest) = (⟨offset, .string text⟩, next, rest) := by
  obtain ⟨next, hread⟩ := stringFrom_flatMap_escape offset [] (offset + 1) text.toList rest
  refine ⟨next, ?_⟩
  have hblank : isBlank doubleQuote = false := by decide
  have hmark : punctuation? doubleQuote = none := rfl
  simp only [first, quote, List.cons_append, List.append_assoc, List.takeWhile_cons, hblank,
    List.dropWhile_cons, Bool.false_eq_true, if_false, List.length_nil, Nat.add_zero, hmark,
    if_true, List.nil_append, hread, List.reverse_nil, String.ofList_toList]

theorem first_punctuation {c : Char} {kind : TokenKind} (hblank : isBlank c = false)
    (hkind : punctuation? c = some kind) (offset : Nat) (rest : List Char) :
    first offset (c :: rest) = (⟨offset, kind⟩, offset + 1, rest) := by
  simp only [first, List.takeWhile_cons, hblank, List.dropWhile_cons, Bool.false_eq_true, if_false,
    List.length_nil, Nat.add_zero, hkind]

end Token

/-! ### Objects -/

namespace Reader

/-- The reader finds the value in this text, if it may take as many tokens as there are
characters, and one more. -/
def Reads (r : Reader) (text : List Char) (value : Json) : Prop :=
  ∀ fuel offset, text.length < fuel → r.resume fuel offset text = .ok value

variable {r : Reader} {frames : List Frame} {expectation : Expectation} {text rest : List Char}
  {value : Json}

theorem reads_of_first {kind : TokenKind}
    (hfirst : ∀ offset, ∃ next, Token.first offset text = (⟨offset, kind⟩, next, rest))
    (hlength : rest.length < text.length)
    (hpush : ∀ offset, r.push ⟨offset, kind⟩ = .ok ⟨frames, expectation⟩)
    (hgoes : ∀ value, expectation ≠ .finished value)
    (hrest : Reads ⟨frames, expectation⟩ rest value) : r.Reads text value := by
  intro fuel offset hfuel
  cases fuel with
  | zero => cases hfuel
  | succ fuel =>
    obtain ⟨next, hnext⟩ := hfirst offset
    simp only [resume, hnext, hpush]
    split
    · rename_i herror
      cases herror
    · rename_i hfinished
      cases hfinished
      exact absurd rfl (hgoes _)
    · rename_i hok
      cases hok
      exact hrest fuel next (by omega)

theorem reads_punctuation {c : Char} {kind : TokenKind} (hblank : Token.isBlank c = false)
    (hkind : Token.punctuation? c = some kind)
    (hpush : ∀ offset, r.push ⟨offset, kind⟩ = .ok ⟨frames, expectation⟩)
    (hgoes : ∀ value, expectation ≠ .finished value)
    (hrest : Reads ⟨frames, expectation⟩ rest value) : r.Reads (c :: rest) value :=
  reads_of_first (fun offset ↦ ⟨_, Token.first_punctuation hblank hkind offset rest⟩)
    (Nat.lt_succ_self _) hpush hgoes hrest

theorem reads_quote {string : String}
    (hpush : ∀ offset, r.push ⟨offset, .string string⟩ = .ok ⟨frames, expectation⟩)
    (hgoes : ∀ value, expectation ≠ .finished value)
    (hrest : Reads ⟨frames, expectation⟩ rest value) : r.Reads (quote string ++ rest) value := by
  refine reads_of_first (fun offset ↦ Token.first_quote offset string rest) ?_ hpush hgoes hrest
  rw [quote, List.cons_append, List.length_cons, List.length_append]
  omega

theorem reads_ending (value : Json) : Reads ⟨[], .ending value⟩ [] value := by
  intro fuel offset hfuel
  cases fuel with
  | zero => cases hfuel
  | succ fuel => rfl

variable {members : List (String × Json)}

/-- A member is read where a name is expected. -/
theorem reads_member (member : String × String)
    (hpush : ∀ offset, r.push ⟨offset, .string member.1⟩ = .ok ⟨[], .colon members member.1⟩)
    (hrest : Reads ⟨[], .afterMember ((member.1, .string member.2) :: members)⟩ rest value) :
    r.Reads (writeMember member ++ rest) value := by
  rw [writeMember, List.append_assoc, List.cons_append]
  refine reads_quote hpush nofun ?_
  refine reads_punctuation (by decide) rfl (fun _ ↦ rfl) nofun ?_
  exact reads_quote (fun _ ↦ rfl) nofun hrest

theorem reads_others (others : List (String × String)) (members : List (String × Json)) :
    Reads ⟨[], .afterMember members⟩
      (others.flatMap (fun member ↦ ',' :: writeMember member) ++ [Char.ofNat 0x7d])
      (.object (members.reverse ++ others.map fun member ↦ (member.1, .string member.2))) := by
  induction others generalizing members with
  | nil =>
    refine reads_punctuation (by decide) rfl (fun _ ↦ rfl) nofun ?_
    rw [List.map_nil, List.append_nil]
    exact reads_ending _
  | cons member others ih =>
    rw [List.flatMap_cons, List.append_assoc, List.cons_append]
    refine reads_punctuation (by decide) rfl (fun _ ↦ rfl) nofun ?_
    refine reads_member member (fun _ ↦ rfl) ?_
    have hrest := ih ((member.1, .string member.2) :: members)
    rwa [List.reverse_cons, List.append_assoc, List.singleton_append] at hrest

end Reader

/-- What is written is read back. -/
theorem ofText_writeObject (first : String × String) (others : List (String × String)) :
    ofText (writeObject first others) =
      .ok (.object ((first :: others).map fun member ↦ (member.1, .string member.2))) := by
  have hreads : Reader.start.Reads (writeObject first others)
      (.object ((first :: others).map fun member ↦ (member.1, .string member.2))) := by
    refine Reader.reads_punctuation (by decide) rfl (fun _ ↦ rfl) nofun ?_
    exact Reader.reads_member first (fun _ ↦ rfl) (Reader.reads_others others _)
  exact hreads _ 0 (Nat.lt_succ_self _)

end Json

/-! ### Requests -/

/-- The bytes of the object show no mark and no zero, so they are taken for what they are. -/
theorem Text.decodeAny?_writeObject (first : String × String) (others : List (String × String)) :
    Text.decodeAny? (String.ofList (Json.writeObject first others)).toUTF8.data.toList =
      some (Json.writeObject first others) := by
  obtain ⟨rest, hbytes⟩ : ∃ rest,
      (String.ofList (Json.writeObject first others)).toUTF8.data.toList =
        0x7b :: 0x22 :: rest := by
    rw [Text.Utf8.data_toUTF8, String.toList_ofList]
    exact ⟨_, rfl⟩
  have hmark : Encoding.ofMark? (0x7b :: 0x22 :: rest) = none := rfl
  have hguess : Encoding.guess (0x7b :: 0x22 :: rest) = .utf8 := by
    rcases rest with _ | ⟨_, _ | ⟨_, _⟩⟩ <;> rfl
  rw [hbytes, decodeAny?, hmark]
  dsimp only
  rw [hguess, ← hbytes, Encoding.decode?, Utf8.decode_toUTF8, String.toList_ofList]
  rfl

namespace Api

/-- Every code and every input can be sent. -/
theorem runTexts?_toRun (code input : String) :
    (Request.toRun (String.ofList
      (Json.writeObject ("code", code) [("input", input)]))).runTexts? = some (code, some input) := by
  have hmembers : (Request.toRun (String.ofList
      (Json.writeObject ("code", code) [("input", input)]))).members =
        .ok [("code", .string code), ("input", .string input)] := by
    have htype : isJsonType "application/json" = true := by decide +kernel
    have hbody : (String.ofList (Json.writeObject ("code", code)
        [("input", input)])).toUTF8.data.toList.isEmpty = false := by
      rw [Text.Utf8.data_toUTF8, String.toList_ofList]
      rfl
    simp only [Request.members, Request.json, Request.toRun, hbody, Option.map_some, htype,
      Text.decodeAny?_writeObject, Json.ofText_writeObject]
    rfl
  have hroute : Operation.ofPath? (Route.cut "/api/run").1 = some .run := by decide +kernel
  have hmethod : ("POST".toUpper == "POST") = true := by decide +kernel
  simp only [Request.runTexts?, Request.membersFor?, hmembers]
  simp only [Request.toRun, Route.ofPath, hroute, hmethod]
  rfl

end Api

end Brainfuck
