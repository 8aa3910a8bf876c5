import ProviderSdk.CSharpLibrary.SourceFile
import ProviderSdk.GoLibrary.SourceFile
import ProviderSdk.Proofs.Code.CommentLines
import ProviderSdk.Proofs.Json.Printing
import ProviderSdk.PythonLibrary.SourceFile
import ProviderSdk.TypeScriptLibrary.Reference

/-!
# String literals

The literal of a string is the same in all languages, and all of them read the string in it, unless
they refuse one of its characters. What is escaped is refused nowhere. So a language reads every
literal if the characters that it refuses are all escaped, which is not so where more than line
feeds and carriage returns end lines.
-/

namespace ProviderSdk

open Json (escaped quotedChars hexDigit)
open Text (heldBehind replaced replaced_induction)

variable {c letter : Char} {rest : List Char}

def sharedLetters : List (Char × Char) :=
  [('"', '"'), ('\\', '\\'), ('b', '\x08'), ('t', '\t'), ('n', '\n'), ('f', '\x0c'), ('r', '\r')]

/-- How a language reads what stands between quotes: the characters that it refuses unless they are
escaped, and the letters that stand for characters only in some languages. Behind `\u` stand the
four digits of a character; other escapes with numbers are left out. -/
structure StringSyntax where
  refused : List Char
  moreLetters : List (Char × Char)

namespace StringSyntax

/-- Strings of scripts in the edition of 2019 and later. -/
def ecmaScript : StringSyntax := ⟨['\n', '\r'], [('v', '\x0b'), ('\'', '\'')]⟩

/-- Strings of scripts in earlier editions, in which separators of lines and paragraphs end lines of
strings too. -/
def ecmaScript2018 : StringSyntax := { ecmaScript with refused := ['\n', '\r', '\u2028', '\u2029'] }

def python : StringSyntax := ⟨['\x00', '\n', '\r'], [('a', '\x07'), ('v', '\x0b'), ('\'', '\'')]⟩

def go : StringSyntax := ⟨['\n'], [('a', '\x07'), ('v', '\x0b')]⟩

/-- Strings of Go for a compiler that refuses what it may refuse: nulls, and byte order marks inside
of files. -/
def strictGo : StringSyntax := { go with refused := ['\x00', '\n', '\ufeff'] }

def cSharp : StringSyntax :=
  ⟨Code.cSharpLineEnds, [('\'', '\''), ('0', '\x00'), ('a', '\x07'), ('v', '\x0b')]⟩

variable (q : StringSyntax)

def letter? (letter : Char) : Option Char := (sharedLetters ++ q.moreLetters).lookup letter

/-- What a literal holds up to the quote that closes it, and what follows it. -/
def body? : List Char → Option (List Char × List Char)
  | '"' :: rest => some ([], rest)
  | '\\' :: 'u' :: d₁ :: d₂ :: d₃ :: d₄ :: rest =>
    ((Text.hexNumber? [d₁, d₂, d₃, d₄]).bind Text.charOf?).bind (fun c => heldBehind [c] (body? rest))
  | '\\' :: letter :: rest => (q.letter? letter).bind (fun c => heldBehind [c] (body? rest))
  | c :: rest => if c ∈ q.refused then none else heldBehind [c] (body? rest)
  | [] => none

def read? : List Char → Option (List Char × List Char)
  | '"' :: rest => q.body? rest
  | _ => none

theorem body?_letter (h : sharedLetters.lookup letter = some c) (rest : List Char) :
    q.body? ('\\' :: letter :: rest) = heldBehind [c] (q.body? rest) := by
  have hu : letter ≠ 'u' := by
    rintro rfl
    cases h
  have hletter : q.letter? letter = some c := by simp [letter?, List.lookup_append, h]
  rw [body?, hletter, Option.bind_some]
  rintro d₁ d₂ d₃ d₄ more rfl
  exact absurd rfl hu

theorem body?_code (h : c.toNat < 32) (rest : List Char) :
    q.body? ('\\' :: 'u' :: '0' :: '0' :: hexDigit (c.toNat / 16) :: hexDigit (c.toNat % 16) :: rest) =
      heldBehind [c] (q.body? rest) := by
  have hhigh := Json.hexValue?_hexDigit (n := c.toNat / 16) (by omega)
  have hlow := Json.hexValue?_hexDigit (n := c.toNat % 16) (by omega)
  have hzero : Text.hexValue? '0' = some 0 := rfl
  have hnumber : Text.hexNumber? ['0', '0', hexDigit (c.toNat / 16), hexDigit (c.toNat % 16)] =
      some c.toNat := by
    simp [Text.hexNumber?, hzero, hhigh, hlow]
    omega
  rw [body?, hnumber, Option.bind_some, Text.charOf?_toNat, Option.bind_some]

theorem body?_plain (hquote : c ≠ '"') (hbackslash : c ≠ '\\') (rest : List Char) :
    q.body? (c :: rest) = if c ∈ q.refused then none else heldBehind [c] (q.body? rest) := by
  rw [body?]
  · exact fun h => hquote h
  · exact fun _ _ _ _ _ h => absurd h hbackslash
  · exact fun _ _ h => absurd h hbackslash

/-- A letter behind a backslash stands for its character in every language. -/
theorem lookup_of_escaped (hescaped : escaped c = ['\\', letter])
    (h : Json.Reader.simpleEscape? letter = some c) :
    sharedLetters.lookup letter = some c := by
  unfold Json.Reader.simpleEscape? at h
  split at h
  all_goals cases h
  case h_3 => exact absurd hescaped (by decide)
  all_goals rfl

def exposed : List Char := q.refused.filter (fun c => escaped c = [c])

/-- A character is read from what stands for it, unless it stands there as it is and is refused. -/
theorem body?_escaped (c : Char) (rest : List Char) :
    q.body? (escaped c ++ rest) = if c ∈ q.exposed then none else heldBehind [c] (q.body? rest) := by
  have hexposed : c ∈ q.exposed ↔ c ∈ q.refused ∧ escaped c = [c] := by simp [exposed]
  rcases Json.escaped_cases c with ⟨letter, hc, hletter⟩ | ⟨hc, hcode⟩ | ⟨hc, hquote, hbackslash, -⟩
  · rw [if_neg (by simp [hexposed, hc]), hc]
    exact q.body?_letter (lookup_of_escaped hc hletter) rest
  · rw [if_neg (by simp [hexposed, hc]), hc]
    exact q.body?_code hcode rest
  · simp only [hexposed, hc, and_true]
    exact q.body?_plain hquote hbackslash rest

theorem body?_quoted (cs rest : List Char) :
    q.body? (cs.flatMap escaped ++ '"' :: rest) =
      if cs.any (· ∈ q.exposed) then none else some (cs, rest) := by
  induction cs with
  | nil => rfl
  | cons c cs ih =>
    rw [List.flatMap_cons, List.append_assoc, body?_escaped, ih, List.any_cons]
    by_cases hc : c ∈ q.exposed
    · simp [hc]
    · simp only [hc, decide_false, Bool.false_or, if_false]
      split
      · rfl
      · rfl

/-- The literal of a string is read as the string, unless it holds a character that is refused and
not escaped. -/
theorem read?_quoted (s : String) (rest : List Char) :
    q.read? ((Json.quoted s).toList ++ rest) =
      if s.toList.any (· ∈ q.exposed) then none else some (s.toList, rest) := by
  rw [Json.toList_quoted, ← body?_quoted, quotedChars, List.append_assoc]
  rfl

theorem read?_of_exposed {q : StringSyntax} (h : q.exposed = []) (s : String) (rest : List Char) :
    q.read? ((Json.quoted s).toList ++ rest) = some (s.toList, rest) := by
  rw [read?_quoted, h, if_neg (by simp)]

end StringSyntax

def verbatimBody? : List Char → Option (List Char × List Char)
  | '"' :: '"' :: rest => heldBehind ['"'] (verbatimBody? rest)
  | '"' :: rest => some ([], rest)
  | c :: rest => heldBehind [c] (verbatimBody? rest)
  | [] => none

def readVerbatim? : List Char → Option (List Char × List Char)
  | '@' :: '"' :: rest => verbatimBody? rest
  | _ => none

theorem verbatimBody?_cons (h : c ≠ '"') (rest : List Char) :
    verbatimBody? (c :: rest) = heldBehind [c] (verbatimBody? rest) := by
  rw [verbatimBody?]
  · exact fun _ hc => absurd hc h
  · exact fun hc => h hc

theorem verbatimBody?_replaced (cs rest : List Char) :
    verbatimBody? (replaced ['"'] ['"', '"'] cs ++ '"' :: ')' :: rest) = some (cs, ')' :: rest) := by
  refine replaced_induction (motive :=
    fun cs ds => verbatimBody? (ds ++ '"' :: ')' :: rest) = some (cs, ')' :: rest))
    (List.cons_ne_nil '"' []) rfl (fun more ih => ?_) (fun c more hmiss ih => ?_) cs
  · change verbatimBody? ('"' :: '"' :: (replaced ['"'] ['"', '"'] more ++ '"' :: ')' :: rest)) = _
    rw [verbatimBody?, ih]
    rfl
  · have hc : c ≠ '"' := by
      rintro rfl
      exact hmiss (List.prefix_append ['"'] more)
    rw [List.cons_append, verbatimBody?_cons hc, ih]
    rfl

theorem readVerbatim?_verbatim (s : String) (rest : List Char) :
    readVerbatim? ((CSharpLibrary.verbatim s).toList ++ ')' :: rest) = some (s.toList, ')' :: rest) := by
  rw [← verbatimBody?_replaced s.toList rest]
  simp [CSharpLibrary.verbatim, Text.replace, readVerbatim?]

/-- The literal of a string is read as the string by Python, by Go, and by scripts in the edition of
2019 and later. In C#, it is not read if and only if the string holds a next-line character or a
separator of lines or paragraphs, and is read as the string otherwise; the separators are those that
scripts in earlier editions do not read either, and compilers of Go may refuse a byte order mark.
The verbatim literal of a string in an attribute is always read as the string. -/
theorem string_literals_denote (s : String) (rest : List Char) :
    StringSyntax.python.read? ((PythonLibrary.defaultStyle.literal (.string s)).toList ++ rest) =
        some (s.toList, rest) ∧
      StringSyntax.go.read? ((GoLibrary.defaultStyle.literal (.string s)).toList ++ rest) =
        some (s.toList, rest) ∧
      StringSyntax.ecmaScript.read? ((TypeScriptLibrary.defaultStyle.literal (.string s)).toList ++ rest) =
        some (s.toList, rest) ∧
      StringSyntax.cSharp.read? ((CSharpLibrary.defaultStyle.literal (.string s)).toList ++ rest) =
        (if s.toList.any (· ∈ ['\u0085', '\u2028', '\u2029']) then none else some (s.toList, rest)) ∧
      StringSyntax.ecmaScript2018.read?
          ((TypeScriptLibrary.defaultStyle.literal (.string s)).toList ++ rest) =
        (if s.toList.any (· ∈ ['\u2028', '\u2029']) then none else some (s.toList, rest)) ∧
      StringSyntax.strictGo.read? ((GoLibrary.defaultStyle.literal (.string s)).toList ++ rest) =
        (if s.toList.any (· ∈ ['\ufeff']) then none else some (s.toList, rest)) ∧
      readVerbatim? ((CSharpLibrary.verbatim s).toList ++ ')' :: rest) = some (s.toList, ')' :: rest) := by
  have hcSharp : StringSyntax.cSharp.exposed = ['\u0085', '\u2028', '\u2029'] := by decide
  have hscript : StringSyntax.ecmaScript2018.exposed = ['\u2028', '\u2029'] := by decide
  have hgo : StringSyntax.strictGo.exposed = ['\ufeff'] := by decide
  refine ⟨StringSyntax.read?_of_exposed (by decide) s rest, StringSyntax.read?_of_exposed (by decide) s rest,
    StringSyntax.read?_of_exposed (by decide) s rest, ?_, ?_, ?_, readVerbatim?_verbatim s rest⟩
  · rw [← hcSharp]
    exact StringSyntax.read?_quoted _ s rest
  · rw [← hscript]
    exact StringSyntax.read?_quoted _ s rest
  · rw [← hgo]
    exact StringSyntax.read?_quoted _ s rest

/-- A separator of lines ends the line in which the literal stands. -/
theorem separatedLiteral_not_read :
    StringSyntax.cSharp.read? (CSharpLibrary.defaultStyle.literal (.string "a\u2028b")).toList = none := by
  decide

end ProviderSdk
