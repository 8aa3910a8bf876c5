import ProviderSdk.Text.Casing
import ProviderSdk.Text.Words

/-!
# Naming conventions of target languages

How a canonical name becomes the name of a type, a file or a field in a generated library, and which
words a language reserves. Types and fields get out of the way of reserved words; files need not.
-/

namespace ProviderSdk

/-- The naming rules of a target language. -/
structure Convention where
  typeForm : String → String
  fileForm : String → String
  fieldForm : String → String
  reserved : List String
  escape : String → String

namespace Convention

def isReserved (c : Convention) (name : String) : Bool := c.reserved.contains name

def safe (c : Convention) (name : String) : String := if c.isReserved name then c.escape name else name

def typeName (c : Convention) (name : String) : String := c.safe (c.typeForm name)

def fileName (c : Convention) (name : String) : String := c.fileForm name

def fieldName (c : Convention) (name : String) : String := c.safe (c.fieldForm name)

/-- TypeScript: an underscore in front of reserved words. -/
def typeScript : Convention where
  typeForm := Text.pascalCase
  fileForm := Text.lowerFirst
  fieldForm := Text.camelCase
  reserved := [
    "break", "case", "catch", "class", "const", "continue", "debugger", "default", "delete",
    "do", "else", "enum", "export", "extends", "false", "finally", "for", "function", "if", "import", "in",
    "instanceof", "let", "new", "null", "return", "super", "switch", "this", "throw", "true", "try", "typeof",
    "var", "void", "while", "with", "yield", "await", "implements", "interface", "package", "private",
    "protected", "public", "static"]
  escape name := "_" ++ name

/-- Python: an underscore behind keywords and behind names that generated code uses itself. -/
def python : Convention where
  typeForm := Text.pascalCase
  fileForm := Text.snakeWords
  fieldForm := Text.snakeWords
  reserved := [
    "False", "None", "True", "and", "as", "assert", "async", "await", "break", "class",
    "continue", "def", "del", "elif", "else", "except", "finally", "for", "from", "global", "if", "import",
    "in", "is", "lambda", "nonlocal", "not", "or", "pass", "raise", "return", "try", "while", "with", "yield",
    "opts", "resource_name", "id"]
  escape name := name ++ "_"

/-- C#: an at sign in front of keywords. -/
def cSharp : Convention where
  typeForm := Text.pascalCase
  fileForm := Text.pascalCase
  fieldForm := Text.lowerFirst
  reserved := [
    "abstract", "as", "base", "bool", "break", "byte", "case", "catch", "char", "checked", "class", "const",
    "continue", "decimal", "default", "delegate", "do", "double", "else", "enum", "event",
    "explicit", "extern", "false", "finally", "fixed", "float", "for", "foreach", "goto", "if", "implicit",
    "in", "int", "interface", "internal", "is", "lock", "long", "namespace", "new", "null", "object",
    "operator", "out", "override", "params", "private", "protected", "public", "readonly", "ref", "return",
    "sbyte", "sealed", "short", "sizeof", "stackalloc", "static", "string", "struct", "switch", "this",
    "throw", "true", "try", "typeof", "uint", "ulong", "unchecked", "unsafe", "ushort", "using", "virtual",
    "void", "volatile", "while"]
  escape name := "@" ++ name

/-- Go: an underscore behind keywords. -/
def go : Convention where
  typeForm := Text.pascalCase
  fileForm := Text.snakeWords
  fieldForm := Text.upperFirst
  reserved := [
    "break", "case", "chan", "const", "continue", "default", "defer", "else", "fallthrough",
    "for", "func", "go", "goto", "if", "import", "interface", "map", "package", "range", "return", "select",
    "struct", "switch", "type", "var"]
  escape name := name ++ "_"

end Convention

end ProviderSdk
