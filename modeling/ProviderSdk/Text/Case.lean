import ProviderSdk.Text.CaseTable

/-!
# Letter case

Case of single characters, as the Unicode character database has it, and the first-letter changes that
names are built from. An upper-case or lower-case form may have several characters (`ß` becomes `SS`), so the
mappings answer with a list.
-/

namespace ProviderSdk.Text

/-- The character of a code point of the tables. -/
def charsOfCodes (codes : List Nat) : List Char := codes.map Char.ofNat

def isUppercase (c : Char) : Bool :=
  if c.toNat < 128 then c.isUpper
  else CaseTable.uppercase.any (fun r => r.contains c.toNat)

def upperOf (c : Char) : List Char :=
  if c.toNat < 128 then [c.toUpper]
  else match CaseTable.toUpperLong.lookup c.toNat with
    | some codes => charsOfCodes codes
    | none => [Char.ofNat (CaseTable.shifted CaseTable.toUpper c.toNat)]

def lowerOf (c : Char) : List Char :=
  if c.toNat < 128 then [c.toLower]
  else match CaseTable.toLowerLong.lookup c.toNat with
    | some codes => charsOfCodes codes
    | none => [Char.ofNat (CaseTable.shifted CaseTable.toLower c.toNat)]

def lowerAll (cs : List Char) : List Char := cs.flatMap lowerOf

def lower (s : String) : String := String.ofList (lowerAll s.toList)

/-- The first character in its upper-case form, the rest as it is. -/
def capitalized : List Char → List Char
  | [] => []
  | c :: rest => upperOf c ++ rest

/-- The first character in its lower-case form, the rest as it is. -/
def uncapitalized : List Char → List Char
  | [] => []
  | c :: rest => lowerOf c ++ rest

/-- `widget` becomes `Widget`. -/
def upperFirst (s : String) : String := String.ofList (capitalized s.toList)

/-- `Widget` becomes `widget`. -/
def lowerFirst (s : String) : String := String.ofList (uncapitalized s.toList)

@[simp] theorem capitalized_nil : capitalized [] = [] := rfl

@[simp] theorem capitalized_cons (c : Char) (rest : List Char) :
    capitalized (c :: rest) = upperOf c ++ rest := rfl

@[simp] theorem uncapitalized_cons (c : Char) (rest : List Char) :
    uncapitalized (c :: rest) = lowerOf c ++ rest := rfl

@[simp] theorem lowerAll_append (xs ys : List Char) :
    lowerAll (xs ++ ys) = lowerAll xs ++ lowerAll ys := by
  simp [lowerAll]

end ProviderSdk.Text
