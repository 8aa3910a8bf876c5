import Mathlib.Data.List.TakeWhile
import ProviderSdk.Proofs.Code.Lines
import ProviderSdk.Schema.DocumentReading
import ProviderSdk.Schema.LoadError

/-!
# Lines, columns and offsets

A place in a text is an offset in bytes. Its line is known from the line feeds before it, and its
column from the bytes since the last of them. The offset comes back from its line and column
wherever there is a line to look in; behind a text that ends with a line feed, and in the empty
text, there is none.
-/

namespace ProviderSdk

open Text (byteLength byteLength_append Ended)

namespace Text

/-- A text is a last line, or a line with a text behind its line break. -/
theorem lines_induction {motive : List Char → Prop} (last : ∀ line, '\n' ∉ line → motive line)
    (more : ∀ line rest, '\n' ∉ line → motive rest → motive (line ++ '\n' :: rest)) (cs : List Char) :
    motive cs := by
  induction hlength : cs.length using Nat.strongRecOn generalizing cs with
  | ind n ih =>
    by_cases h : '\n' ∈ cs
    · obtain ⟨line, rest, rfl, hline⟩ := List.eq_append_cons_of_mem h
      refine more line rest hline (ih rest.length ?_ rest rfl)
      simp only [List.length_append, List.length_cons] at hlength
      omega
    · exact last cs h

theorem ended_concat_iff {front : List Char} {last : Char} : Ended (front ++ [last]) ↔ last = '\n' := by
  constructor
  · rintro (hnil | ⟨front', heq⟩)
    · exact absurd hnil (List.concat_ne_nil last front)
    · exact List.singleton_inj.mp (List.append_inj_right' heq rfl)
  · rintro rfl
    exact .inr ⟨front, rfl⟩

theorem ended_append_feed_iff {line rest : List Char} : Ended (line ++ '\n' :: rest) ↔ Ended rest := by
  rcases List.eq_nil_or_concat' rest with rfl | ⟨front, last, rfl⟩
  · exact ⟨fun _ => .inl rfl, fun _ => .inr ⟨line, rfl⟩⟩
  · rw [← List.cons_append, ← List.append_assoc, ended_concat_iff, ended_concat_iff]

theorem ended_iff_of_not_mem {line : List Char} (h : '\n' ∉ line) : Ended line ↔ line = [] := by
  refine ⟨?_, .inl⟩
  rintro (hnil | ⟨front, rfl⟩)
  · exact hnil
  · exact absurd (List.mem_append_right front (List.mem_singleton_self '\n')) h

def utf8 (cs : List Char) : List UInt8 := cs.flatMap String.utf8EncodeChar

def feedByte : UInt8 := 10

theorem utf8_append (cs ds : List Char) : utf8 (cs ++ ds) = utf8 cs ++ utf8 ds := List.flatMap_append

theorem utf8_feed (cs : List Char) : utf8 ('\n' :: cs) = feedByte :: utf8 cs := rfl

theorem length_utf8 (cs : List Char) : (utf8 cs).length = byteLength cs := by
  induction cs with
  | nil => rfl
  | cons c rest ih =>
    rw [utf8, List.flatMap_cons, List.length_append, String.length_utf8EncodeChar,
      byteLength, List.foldr_cons]
    exact congrArg (c.utf8Size + ·) ih

theorem byteLength_feed (cs : List Char) : byteLength ('\n' :: cs) = byteLength cs + 1 := Nat.add_comm 1 _

theorem utf8_toList (s : String) : utf8 s.toList = s.toUTF8.data.toList := by
  rw [String.toUTF8, ← String.utf8Encode_toList, List.utf8Encode, List.toList_data_toByteArray, utf8]

/-- No other character has the byte of a line feed among its bytes. -/
theorem feedByte_not_mem_utf8EncodeChar {c : Char} (h : c ≠ '\n') : feedByte ∉ String.utf8EncodeChar c := by
  have hvalue : c.val.toNat ≠ 10 := fun heq => h (Char.ext (UInt32.toNat_inj.mp heq))
  -- Apart from the one byte of a small character, the first byte is at least 192, and the others at least 128.
  have hbytes : ∀ byte ∈ String.utf8EncodeChar c, byte.toNat = c.val.toNat ∨ 128 ≤ byte.toNat := by
    intro byte hbyte
    simp only [String.utf8EncodeChar] at hbyte
    split_ifs at hbyte <;> simp only [List.mem_cons, List.not_mem_nil, or_false] at hbyte
    · rw [hbyte, UInt8.toNat_ofNat']
      omega
    · rcases hbyte with rfl | rfl <;> rw [UInt8.toNat_ofNat'] <;> omega
    · rcases hbyte with rfl | rfl | rfl <;> rw [UInt8.toNat_ofNat'] <;> omega
    · rcases hbyte with rfl | rfl | rfl | rfl <;> rw [UInt8.toNat_ofNat'] <;> omega
  intro hmem
  rcases hbytes feedByte hmem with heq | hle
  · exact hvalue heq.symm
  · exact absurd hle (by decide)

theorem feedByte_not_mem_utf8 {cs : List Char} (h : '\n' ∉ cs) : feedByte ∉ utf8 cs := by
  rintro hmem
  obtain ⟨c, hc, hbyte⟩ := List.mem_flatMap.mp hmem
  exact feedByte_not_mem_utf8EncodeChar (fun heq => h (heq ▸ hc)) hbyte

end Text

namespace Location

open Text (utf8 feedByte utf8_append utf8_feed length_utf8 byteLength_feed feedByte_not_mem_utf8)

/-- The line that bytes lead to: one more than there are line feeds among them. -/
def lineBehind (before : List UInt8) : Nat := 1 + before.count feedByte

/-- The column that bytes lead to: one more than there are bytes behind the last line feed. -/
def columnBehind (before : List UInt8) : Nat := 1 + (before.reverse.takeWhile (· != feedByte)).length

variable {bytes before : List UInt8} {cs line rest : List Char}

theorem lineBehind_take_utf8 (h : '\n' ∉ line) (p : Nat) : lineBehind ((utf8 line).take p) = 1 := by
  have hno : feedByte ∉ (utf8 line).take p := fun hmem => feedByte_not_mem_utf8 h (List.mem_of_mem_take hmem)
  rw [lineBehind, List.count_eq_zero_of_not_mem hno]

/-- Within the first line the column tells the offset. -/
theorem columnBehind_take_utf8 {p : Nat} (h : '\n' ∉ line) (hp : p ≤ byteLength line) :
    columnBehind ((utf8 line).take p) = 1 + p := by
  have hall : ∀ byte ∈ ((utf8 line).take p).reverse, (byte != feedByte) = true := by
    intro byte hbyte
    have hmem : byte ∈ utf8 line := List.mem_of_mem_take (List.mem_reverse.mp hbyte)
    simpa using ne_of_mem_of_not_mem hmem (feedByte_not_mem_utf8 h)
  rw [columnBehind, List.takeWhile_eq_self_iff.mpr hall, List.length_reverse, List.length_take, length_utf8,
    Nat.min_eq_left hp]

theorem columnBehind_le (bytes : List UInt8) : columnBehind bytes ≤ 1 + bytes.length := by
  have h := (List.takeWhile_sublist (l := bytes.reverse) (· != feedByte)).length_le
  rw [List.length_reverse] at h
  exact Nat.add_le_add_left h 1

theorem lineBehind_feed (h : feedByte ∉ bytes) :
    lineBehind (bytes ++ feedByte :: before) = lineBehind before + 1 := by
  rw [lineBehind, List.count_append, List.count_eq_zero_of_not_mem h, List.count_cons_self, lineBehind]
  omega

theorem columnBehind_feed (bytes before : List UInt8) :
    columnBehind (bytes ++ feedByte :: before) = columnBehind before := by
  have hstop : (before.reverse ++ feedByte :: bytes.reverse).takeWhile (· != feedByte) =
      before.reverse.takeWhile (· != feedByte) := by
    rw [List.takeWhile_append, List.takeWhile_cons_of_neg (by simp), List.append_nil]
    split
    · next hall => exact ((List.takeWhile_prefix _).eq_of_length hall).symm
    · rfl
  rw [columnBehind, List.reverse_append, List.reverse_cons, List.append_assoc, List.singleton_append,
    hstop, columnBehind]

theorem brokenLines_append_feed (h : '\n' ∉ line) (rest : List Char) :
    brokenLines (line ++ '\n' :: rest) = (line ++ ['\n']) :: brokenLines rest := by
  induction line with
  | nil => simp [brokenLines]
  | cons c line ih =>
    obtain ⟨hc, hline⟩ := List.ne_and_not_mem_of_not_mem_cons h
    rw [List.cons_append, brokenLines, if_neg (Ne.symm hc), ih hline]
    rfl

theorem brokenLines_of_not_mem (hne : line ≠ []) (h : '\n' ∉ line) : brokenLines line = [line] := by
  induction line with
  | nil => exact absurd rfl hne
  | cons c line ih =>
    obtain ⟨hc, hline⟩ := List.ne_and_not_mem_of_not_mem_cons h
    rw [brokenLines, if_neg (Ne.symm hc)]
    by_cases hnil : line = []
    · rw [hnil]
      rfl
    · rw [ih hnil hline]

/-- The place is behind a text that has no last line to look in: its last line, if it has one, is ended. -/
def BehindLines (cs : List Char) (p : Nat) : Prop := Ended cs ∧ p = byteLength cs

/-- A place is led to by what comes before it: it lies in the line, or behind its line break. -/
theorem take_utf8_append_feed {p : Nat} (hp : p ≤ byteLength (line ++ '\n' :: rest)) :
    (p ≤ byteLength line ∧ (utf8 (line ++ '\n' :: rest)).take p = (utf8 line).take p) ∨
      ∃ q ≤ byteLength rest, p = byteLength line + 1 + q ∧
        (utf8 (line ++ '\n' :: rest)).take p = utf8 line ++ feedByte :: (utf8 rest).take q := by
  rw [byteLength_append, byteLength_feed] at hp
  rw [utf8_append, utf8_feed]
  rcases Nat.lt_or_ge (byteLength line) p with hlt | hle
  · obtain ⟨q, rfl⟩ := Nat.exists_eq_add_of_lt hlt
    refine .inr ⟨q, by omega, by omega, ?_⟩
    rw [List.take_append, length_utf8, List.take_of_length_le (by rw [length_utf8]; omega),
      show byteLength line + q + 1 - byteLength line = q + 1 by omega, List.take_succ_cons]
  · exact .inl ⟨hle, List.take_append_of_le_length (by rwa [length_utf8])⟩

/-- Within the first line the offset of a column is found, however the line goes on. -/
theorem offsetFrom_line (start : Nat) {column p : Nat} {text : List Char} {lines : List (List Char)}
    (h : '\n' ∉ line) (hp : p ≤ byteLength line) (htext : p ≤ byteLength text)
    (hcolumn : column ≤ columnBehind ((utf8 line).take p)) :
    offsetFrom start (lineBehind ((utf8 line).take p)) column (text :: lines) =
      some (start + (p + 1 - columnBehind ((utf8 line).take p)) + (column - 1)) := by
  rw [columnBehind_take_utf8 h hp] at hcolumn ⊢
  rw [lineBehind_take_utf8 h, offsetFrom, if_pos (Nat.le_refl 1), Option.some_inj]
  omega

/-- The offset of a column, counted from the start of the line that bytes lead to; there is none
behind the lines. -/
theorem offsetFrom_eq (start column : Nat) {p : Nat} (hp : p ≤ byteLength cs)
    (hcolumn : column ≤ columnBehind ((utf8 cs).take p)) :
    (BehindLines cs p → offsetFrom start (lineBehind ((utf8 cs).take p)) column (brokenLines cs) = none) ∧
    (¬ BehindLines cs p → offsetFrom start (lineBehind ((utf8 cs).take p)) column (brokenLines cs) =
      some (start + (p + 1 - columnBehind ((utf8 cs).take p)) + (column - 1))) := by
  induction cs using Text.lines_induction generalizing start p with
  | last line h =>
    refine ⟨fun hbehind => ?_, fun hnot => ?_⟩
    · rw [(Text.ended_iff_of_not_mem h).mp hbehind.1]
      rfl
    · have hne : line ≠ [] := by
        rintro rfl
        exact hnot ⟨.inl rfl, Nat.le_zero.mp hp⟩
      rw [brokenLines_of_not_mem hne h]
      exact offsetFrom_line start h hp hp hcolumn
  | more line rest h ih =>
    rw [brokenLines_append_feed h]
    have hfull : byteLength (line ++ '\n' :: rest) = byteLength line + 1 + byteLength rest := by
      rw [byteLength_append, byteLength_feed]
      omega
    rcases take_utf8_append_feed hp with ⟨hle, htake⟩ | ⟨q, hq, rfl, htake⟩
    · rw [htake] at hcolumn ⊢
      refine ⟨fun hbehind => ?_, fun _ => ?_⟩
      · have hend : p = byteLength (line ++ '\n' :: rest) := hbehind.2
        omega
      · exact offsetFrom_line start h hle (by rw [byteLength_append]; omega) hcolumn
    · have hline : feedByte ∉ utf8 line := feedByte_not_mem_utf8 h
      have hbehind : BehindLines (line ++ '\n' :: rest) (byteLength line + 1 + q) ↔ BehindLines rest q := by
        rw [BehindLines, BehindLines, Text.ended_append_feed_iff, hfull]
        exact and_congr_right (fun _ => Nat.add_left_cancel_iff)
      have hskip : byteLength (line ++ ['\n']) = byteLength line + 1 := byteLength_append line ['\n']
      have hnext : ¬ lineBehind ((utf8 rest).take q) + 1 ≤ 1 := by
        rw [lineBehind]
        omega
      rw [htake, columnBehind_feed] at hcolumn
      rw [htake, columnBehind_feed, lineBehind_feed hline, offsetFrom, if_neg hnext, hbehind, hskip,
        Nat.add_sub_cancel]
      obtain ⟨hnone, hsome⟩ := ih (start + (byteLength line + 1)) hq hcolumn
      refine ⟨hnone, fun hnot => ?_⟩
      have hwithin := columnBehind_le ((utf8 rest).take q)
      rw [List.length_take, length_utf8, Nat.min_eq_left hq] at hwithin
      rw [hsome hnot, Option.some_inj]
      omega

/-- Within a line a reader counts the bytes that it has read. -/
theorem advanceFrom_line (position : Position) (h : '\n' ∉ line) (rest : List Char) {p : Nat}
    (hp : p ≤ byteLength line) :
    advanceFrom position p (line ++ rest) = ⟨position.line, position.column + p⟩ := by
  induction line generalizing position p with
  | nil =>
    obtain rfl := Nat.le_zero.mp hp
    cases rest with
    | nil => rfl
    | cons c rest => rw [List.nil_append, advanceFrom, if_pos c.utf8Size_pos]
  | cons c line ih =>
    obtain ⟨hc, hline⟩ := List.ne_and_not_mem_of_not_mem_cons h
    rw [List.cons_append, advanceFrom]
    split
    · rfl
    · next hle =>
      have hrest : p - c.utf8Size ≤ byteLength line := by
        rw [byteLength, List.foldr_cons] at hp
        exact Nat.sub_le_iff_le_add'.mpr hp
      rw [if_neg (Ne.symm hc), ih _ hline hrest, Position.mk.injEq]
      exact ⟨rfl, by dsimp only; omega⟩

/-- Behind a line break a reader counts anew. -/
theorem advanceFrom_feed (position : Position) (h : '\n' ∉ line) (rest : List Char) (q : Nat) :
    advanceFrom position (byteLength line + 1 + q) (line ++ '\n' :: rest) =
      advanceFrom ⟨position.line + 1, 0⟩ q rest := by
  induction line generalizing position with
  | nil =>
    have hsize : '\n'.utf8Size = 1 := rfl
    have hlength : byteLength [] = 0 := rfl
    have hskip : 0 + 1 + q - 1 = q := by omega
    rw [List.nil_append, advanceFrom, hsize, hlength, if_neg (by omega), if_pos rfl, hskip]
  | cons c line ih =>
    obtain ⟨hc, hline⟩ := List.ne_and_not_mem_of_not_mem_cons h
    have hlength : byteLength (c :: line) = c.utf8Size + byteLength line := rfl
    have hnext := ih ⟨position.line, position.column + c.utf8Size⟩ hline
    have hskip : byteLength (c :: line) + 1 + q - c.utf8Size = byteLength line + 1 + q := by omega
    rw [List.cons_append, advanceFrom, if_neg (by omega), if_neg (Ne.symm hc), ← hnext, hskip]

/-- A reader is at the line of what it has read, and counts its columns from zero. -/
theorem positionAt_eq {p : Nat} (hp : p ≤ byteLength cs) :
    positionAt cs p = ⟨lineBehind ((utf8 cs).take p), columnBehind ((utf8 cs).take p) - 1⟩ := by
  have hfirst {line : List Char} (rest : List Char) (start : Nat) {p : Nat} (h : '\n' ∉ line)
      (hp : p ≤ byteLength line) : advanceFrom ⟨start + 1, 0⟩ p (line ++ rest) =
        ⟨start + lineBehind ((utf8 line).take p), columnBehind ((utf8 line).take p) - 1⟩ := by
    rw [advanceFrom_line _ h rest hp, lineBehind_take_utf8 h, columnBehind_take_utf8 h hp, Position.mk.injEq]
    exact ⟨rfl, by dsimp only; omega⟩
  have hstart (start : Nat) : advanceFrom ⟨start + 1, 0⟩ p cs =
      ⟨start + lineBehind ((utf8 cs).take p), columnBehind ((utf8 cs).take p) - 1⟩ := by
    induction cs using Text.lines_induction generalizing start p with
    | last line h => simpa using hfirst [] start h hp
    | more line rest h ih =>
      rcases take_utf8_append_feed hp with ⟨hle, htake⟩ | ⟨q, hq, rfl, htake⟩
      · rw [htake, hfirst _ start h hle]
      · rw [htake, columnBehind_feed, lineBehind_feed (feedByte_not_mem_utf8 h), advanceFrom_feed _ h,
          ih hq (start + 1), Nat.add_right_comm start, Nat.add_assoc start]
  simpa [positionAt] using hstart 0

theorem behindLines_iff (s : String) (p : Nat) :
    BehindLines s.toList p ↔ p = s.utf8ByteSize ∧ (s = "" ∨ s.toList.getLast? = some '\n') := by
  have hsize : s.utf8ByteSize = byteLength s.toList := by
    rw [← Text.utf8ByteSize_ofList, String.ofList_toList]
  have hended : Ended s.toList ↔ s = "" ∨ s.toList.getLast? = some '\n' := by
    rw [Ended, String.toList_eq_nil_iff, List.getLast?_eq_some_iff]
  rw [BehindLines, hsize, hended, and_comm]

end Location

open Location (lineBehind columnBehind)

/-- The offset that a line and a column stand for is exact: from the line and the column of a place
in a text, counted from the line feeds and bytes before it, the place comes back, unless it is the
end of a text that is empty or ends with a line break; there is no offset there. A reader that stops
at a place counts its columns from zero, so that its complaint points to the byte that it has read
last, or to the place itself at the start of a line; it points nowhere exactly at the end of a text
that is empty or ends with a line break. -/
theorem Location.offset_exact (source : SourceText) (p : Nat) (hp : p ≤ source.text.utf8ByteSize) :
    let before := source.text.toUTF8.data.toList.take p
    let behind := p = source.text.utf8ByteSize ∧ (source.text = "" ∨ source.text.toList.getLast? = some '\n')
    (behind → Location.offset? source.text.toList (lineBehind before) (columnBehind before) = none) ∧
    (¬ behind → Location.offset? source.text.toList (lineBehind before) (columnBehind before) = some p) ∧
    (behind → (LoadError.json source (.malformed p)).offset? = none) ∧
    (¬ behind → (LoadError.json source (.malformed p)).offset? =
      some (if columnBehind before = 1 then p else p - 1)) := by
  intro before behind
  have hbefore : before = (Text.utf8 source.text.toList).take p := by rw [Text.utf8_toList]
  have hp' : p ≤ byteLength source.text.toList := by
    rwa [← Text.length_utf8, Text.utf8_toList]
  have hbehind : Location.BehindLines source.text.toList p ↔ behind := Location.behindLines_iff source.text p
  have hline : lineBehind before ≠ 0 := Nat.ne_of_gt (Nat.add_pos_left Nat.one_pos _)
  have hcolumn : 1 ≤ columnBehind before := Nat.le_add_right 1 _
  have hwithin : columnBehind before ≤ p + 1 := by
    have hle := Location.columnBehind_le before
    have hlength : before.length ≤ p := List.length_take_le _ _
    omega
  have hoffset (column : Nat) : Location.offset? source.text.toList (lineBehind before) column =
      Location.offsetFrom 0 (lineBehind before) column (Location.brokenLines source.text.toList) :=
        if_neg hline
  have hlabel : (LoadError.json source (.malformed p)).offset? =
      Location.offset? source.text.toList (lineBehind before) (columnBehind before - 1) := by
    rw [LoadError.offset?]
    simp only [Location.positionAt_eq hp', ← hbefore]
  rw [hlabel, hoffset, hoffset, hbefore, ← hbehind]
  rw [hbefore] at hcolumn hwithin
  obtain ⟨hnone, hsome⟩ := Location.offsetFrom_eq 0 _ hp' (Nat.le_refl _)
  obtain ⟨hnone', hsome'⟩ := Location.offsetFrom_eq 0 _ hp' (Nat.sub_le _ 1)
  refine ⟨hnone, fun hnot => ?_, hnone', fun hnot => ?_⟩
  · rw [hsome hnot, Option.some_inj]
    omega
  · rw [hsome' hnot, Option.some_inj]
    split <;> omega

/-- A place within a character is found again from its line and its column. -/
theorem Location.offset_within_character :
    3 ≤ "a\nü".utf8ByteSize ∧ Location.offset? "a\nü".toList 2 2 = some 3 :=
  ⟨by decide +kernel, (Location.offset_exact ⟨"a\nü", "provider.json"⟩ 3 (by decide +kernel)).2.1
    (by decide +kernel)⟩

/-- A document that stops behind the line on which it opens an object. -/
def openedObject : SourceText := ⟨"\x7b\n", "provider.json"⟩

/-- The document is refused at its end, which is at the first column of its second line; but no
offset is found for this line and column, and the complaint points nowhere. -/
theorem Location.offset_misses_end :
    Document.load openedObject = .error (.json openedObject (.malformed 2)) ∧
      openedObject.text.utf8ByteSize = 2 ∧
    lineBehind (openedObject.text.toUTF8.data.toList.take 2) = 2 ∧
    columnBehind (openedObject.text.toUTF8.data.toList.take 2) = 1 ∧
    Location.offset? openedObject.text.toList 2 1 = none ∧
    (LoadError.json openedObject (.malformed 2)).offset? = none := by
  have hparse : WireDocument.parse openedObject.text = .error (.malformed 2) := rfl
  refine ⟨?_, by decide +kernel, by decide +kernel, by decide +kernel, by decide +kernel, by decide +kernel⟩
  rw [Document.load, hparse]

end ProviderSdk
