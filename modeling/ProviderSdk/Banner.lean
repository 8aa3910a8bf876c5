/-!
# Banners of generated files

The warning that opens a generated file, in the comment marks of the file's language, and a blank
line behind it.
-/

namespace ProviderSdk

def toolName : String := "tfgen"

/-- How the language of a file marks comments. -/
inductive CommentStyle where
  | slash
  | hash
  | xml
  deriving DecidableEq, Repr

namespace CommentStyle

def warningLines : List String := [
  "*** WARNING: this file was generated by the tfgen tool. ***",
  "*** Do not edit by hand unless you're certain you know what you are doing! ***"]

def marked (mark : String) : String := String.join (warningLines.map (fun line => mark ++ line ++ "\n"))

def banner : CommentStyle → String
  | .slash => marked "// " ++ "\n"
  | .hash => marked "# " ++ "\n"
  | .xml => "<!--\n" ++ marked "    " ++ "-->\n\n"

end CommentStyle

end ProviderSdk
