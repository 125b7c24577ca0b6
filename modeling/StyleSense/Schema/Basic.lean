import StyleSense.Text.Blank

/-!
Contract: what is known about properties and at-rules.

Owns:
- `Schema` with its entries and `Schema.property?`;
- `browserLabel?` and `PropertyEntry.description?`, the texts that are shown for a property.

Does not own: JSON (`StyleSense.Schema.Json`) and the entries that come with the program
(`StyleSense.Schema.Bundled`).
-/

namespace StyleSense

open Text

/-- A value that a property can take. -/
structure ValueEntry where
  name : String
  description : Option String
deriving DecidableEq, Repr

/-- A property. -/
structure PropertyEntry where
  name : String
  summary : Option String
  /-- The browsers that know it, such as `E12,FF1,S1`, or `all`. -/
  browsers : Option String
  /-- `e` experimental, `n` nonstandard, `o` obsolete. -/
  status : Option String
  grammar : Option String
  values : List ValueEntry
deriving DecidableEq, Repr

/-- An at-rule. -/
structure DirectiveEntry where
  name : String
  summary : Option String
  browsers : Option String
deriving DecidableEq, Repr

/-- Properties and at-rules. -/
structure Schema where
  properties : List PropertyEntry
  directives : List DirectiveEntry
deriving DecidableEq, Repr

/-- The first entry of a property. -/
def Schema.property? (schema : Schema) (name : String) : Option PropertyEntry :=
  schema.properties.find? fun entry => entry.name = name

/-- Keys of browsers and their names, in the order in which they are listed. -/
def browserNames : List (String × String) :=
  [("E", "Edge"), ("FF", "Firefox"), ("S", "Safari"), ("C", "Chrome"), ("IE", "IE"),
    ("O", "Opera")]

/-- The entries of a list of browsers, each cut into its key and its version. -/
private def browserVersions (browsers : List Char) : List (String × String) :=
  ((browsers.splitOn ',').map trim).filterMap fun entry =>
    if entry.isEmpty then none
    else
      some (String.ofList (entry.takeWhile Char.isAlpha),
        String.ofList (entry.dropWhile Char.isAlpha))

/-- A readable list of browsers, unless it is empty or holds all of them. -/
def browserLabel? (browsers : String) : Option String :=
  let list := trim browsers.toList
  if list = "all".toList then none
  else
    let versions := browserVersions list
    let labels := browserNames.filterMap fun (key, name) =>
      (versions.find? fun entry => entry.1 = key).map fun (_, version) =>
        if version.isEmpty then name else name ++ " " ++ version
    if labels.isEmpty then none else some (", ".intercalate labels)

/-- The warning that goes with a status. -/
def statusWarning : String → String
  | "e" => "⚠️ Property is experimental. Be cautious when using it.\n\n"
  | "n" => "🚨️ Property is nonstandard. Avoid using it.\n\n"
  | "o" => "🚨️ Property is obsolete. Avoid using it.\n\n"
  | _ => ""

/-- The description of a property with its status, browsers and grammar, if it has a summary. -/
def PropertyEntry.description? (entry : PropertyEntry) : Option String :=
  match entry.summary with
  | none => none
  | some summary =>
    if summary.isEmpty then none
    else
      let warning := (entry.status.map statusWarning).getD ""
      let browsers :=
        ((entry.browsers.bind browserLabel?).map fun label => "\n(" ++ label ++ ")").getD ""
      let grammar := (entry.grammar.map fun text => "\n\nSyntax: " ++ text).getD ""
      some (warning ++ summary ++ browsers ++ grammar)

end StyleSense
