import StyleSense.Json.Record
import StyleSense.Node.Basic

/-!
Contract: syntax trees as JSON.

Owns:
- `Node.toJson`, in which the tag of a node is its `nodeName`;
- `Node.ofJson?`, which reads such a tree. A node with an unknown tag is read as `Node.other`.

A body that selectors share is written at each place; what is read back never shares.

Does not own: the text of a JSON value (`StyleSense.Json.Reader`, `StyleSense.Json.Printer`).
-/

namespace StyleSense

open Json (ofNat ofFloat ofList optionalField required optional withDefault)

/-- The fields that give a place. -/
def SourcePos.fields (pos : SourcePos) : List (String × Json) :=
  [("lineno", ofNat pos.line), ("column", ofNat pos.column)]

/-- The object of a node. -/
def Node.tagged (tag : String) (fields : List (String × Json)) : Json :=
  .object (("nodeName", .string tag) :: fields)

mutual

/-- A node as JSON. -/
def Node.toJson : Node → Json
  | .ident name value pos =>
    Node.tagged "ident" (("name", .string name) :: Node.optionField "val" value ++ pos.fields)
  | .selector head body => Selector.toJson head (Node.optionField "block" body)
  | .call name args pos =>
    Node.tagged "call"
      (("name", .string name) :: ("args", .object [("nodes", .array (Node.listJson args))])
        :: pos.fields)
  | .function name params body pos =>
    Node.tagged "function"
      (("name", .string name) :: ("params", ofList .string params) :: Node.optionField "block" body
        ++ pos.fields)
  | .rgba color raw pos =>
    Node.tagged "rgba"
      ([("r", ofFloat color.red), ("g", ofFloat color.green), ("b", ofFloat color.blue),
        ("a", ofFloat color.alpha), ("raw", .string raw)] ++ pos.fields)
  | .unit value suffix pos =>
    Node.tagged "unit"
      (("val", ofFloat value) :: optionalField "type" .string suffix ++ pos.fields)
  | .binary op left right pos =>
    Node.tagged "binop"
      ([("op", .string op), ("left", left.toJson), ("right", right.toJson)] ++ pos.fields)
  | .string value pos => Node.tagged "string" (("val", .string value) :: pos.fields)
  | .expression value => Node.tagged "expression" (Expression.fields value)
  | .object entries pos =>
    Node.tagged "object" (("vals", .object (Node.entriesJson entries)) :: pos.fields)
  | .ternary condition whenTrue whenFalse pos =>
    Node.tagged "ternary"
      ([("cond", condition.toJson), ("trueExpr", whenTrue.toJson), ("falseExpr", whenFalse.toJson)]
        ++ pos.fields)
  | .property name value pos =>
    Node.tagged "property"
      (("segments", .array (Segment.listJson name)) :: Expression.optionField value ++ pos.fields)
  | .atblock statements pos =>
    Node.tagged "atblock" (("nodes", .array (Node.listJson statements)) :: pos.fields)
  | .rule selectors body pos =>
    let block := body.toJson
    Node.tagged "group"
      (("nodes", .array (Selector.listJson block selectors)) :: ("block", block) :: pos.fields)
  | .wrapper kind nodes body pos =>
    Node.tagged kind.tag
      (("nodes", .array (Node.listJson nodes)) :: Node.optionField "block" body ++ pos.fields)
  | .directive kind text body pos =>
    Node.tagged kind.tag
      (optionalField "val" .string text ++ Node.optionField "block" body ++ pos.fields)
  | .other => Node.tagged "other" []

/-- A selector with the field of its body. -/
def Selector.toJson : Selector → List (String × Json) → Json
  | ⟨segments, pos⟩, block =>
    Node.tagged "selector"
      (("segments", .array (Segment.listJson segments)) :: block ++ pos.fields)

/-- Selectors that each have the body `block`. -/
def Selector.listJson (block : Json) : List Selector → List Json
  | [] => []
  | head :: rest => Selector.toJson head [("block", block)] :: Selector.listJson block rest

/-- The field of a node, left out when there is none. -/
def Node.optionField (name : String) : Option Node → List (String × Json)
  | none => []
  | some node => [(name, node.toJson)]

/-- Nodes as JSON. -/
def Node.listJson : List Node → List Json
  | [] => []
  | node :: rest => node.toJson :: Node.listJson rest

/-- The entries of an object as fields. -/
def Node.entriesJson : List (String × Node) → List (String × Json)
  | [] => []
  | (key, node) :: rest => (key, node.toJson) :: Node.entriesJson rest

/-- The fields of a list of terms. -/
def Expression.fields : Expression → List (String × Json)
  | ⟨terms, pos⟩ => ("nodes", .array (Node.listJson terms)) :: pos.fields

/-- The field of a value, left out when there is none. -/
def Expression.optionField : Option Expression → List (String × Json)
  | none => []
  | some value => [("expr", .object (Expression.fields value))]

/-- Segments as JSON. -/
def Segment.listJson : List Segment → List Json
  | [] => []
  | ⟨text, line, nodes⟩ :: rest =>
    .object
      (optionalField "string" .string text ++ ("lineno", ofNat line)
        :: (if nodes.isEmpty then [] else [("nodes", .array (Node.listJson nodes))]))
      :: Segment.listJson rest

end

/-! ## Reading -/

/-- The wrapper with a given tag. -/
def Wrapper.ofTag? : String → Option Wrapper
  | "group" => some .group
  | "root" => some .root
  | "block" => some .block
  | _ => none

/-- The at-rule with a given tag. -/
def Directive.ofTag? : String → Option Directive
  | "media" => some .media
  | "keyframes" => some .keyframes
  | "atrule" => some .atrule
  | "import" => some .importFile
  | "require" => some .require
  | "supports" => some .supports
  | "literal" => some .literal
  | _ => none

section Layer

variable {whole : Json} (read : Json.Part whole → Option Node)

/-- A place; a missing line or column is zero. -/
def Node.readPlace? (line column : Option (Json.Part whole)) : Option SourcePos := do
  return ⟨← withDefault 0 Json.nat? line, ← withDefault 0 Json.nat? column⟩

/-- A node that may be missing or `null`. -/
def Node.readOptional? : Option (Json.Part whole) → Option (Option Node)
  | none => some none
  | some part =>
    match part.val with
    | .null => some none
    | _ => (read part).map some

/-- A list of nodes, empty when it is missing. -/
def Node.readList? : Option (Json.Part whole) → Option (List Node)
  | none => some []
  | some part => part.items?.bind fun items => items.mapM read

/-- A list of terms. -/
def Node.readExpression? (part : Json.Part whole) : Option Expression :=
  match part.record? ["nodes", "lineno", "column"] with
  | some [nodes, line, column] => do
    return ⟨← Node.readList? read nodes, ← Node.readPlace? line column⟩
  | _ => none

/-- A list of terms that may be missing or `null`. -/
def Node.readOptionalExpression? : Option (Json.Part whole) → Option (Option Expression)
  | none => some none
  | some part =>
    match part.val with
    | .null => some none
    | _ => (Node.readExpression? read part).map some

/-- The arguments of a call. -/
def Node.readArguments? : Option (Json.Part whole) → Option (List Node)
  | none => some []
  | some part =>
    match part.record? ["nodes"] with
    | some [nodes] => Node.readList? read nodes
    | _ => none

/-- A segment. -/
def Node.readSegment? (part : Json.Part whole) : Option Segment :=
  match part.record? ["string", "lineno", "nodes"] with
  | some [text, line, nodes] => do
    let text ← optional Json.string? text
    let line ← withDefault 0 Json.nat? line
    return ⟨text, line, ← Node.readList? read nodes⟩
  | _ => none

/-- The segments of a name, which must be given. -/
def Node.readSegments? (field : Option (Json.Part whole)) : Option (List Segment) :=
  field.bind fun part => part.items?.bind fun items => items.mapM (Node.readSegment? read)

/-- The entries of an object, the last value of each key at the place of its first. -/
def Node.readEntries? : Option (Json.Part whole) → Option (List (String × Node))
  | none => some []
  | some part => do
    let entries ← part.entries?
    let read ← entries.mapM fun (key, value) => (read value).map fun node => (key, node)
    return read.foldl (fun done (key, node) => Node.setEntry key node done) []

/-- The node with a given tag whose fields `fields` looks up. -/
def Node.readFields? (tag : String)
    (fields : List String → Option (List (Option (Json.Part whole)))) : Option Node :=
  match tag with
  | "ident" =>
    match fields ["name", "val", "lineno", "column"] with
    | some [name, value, line, column] => do
      let name ← required Json.string? name
      return .ident name (← Node.readOptional? read value) (← Node.readPlace? line column)
    | _ => none
  | "selector" =>
    match fields ["segments", "block", "lineno", "column"] with
    | some [segments, block, line, column] => do
      let segments ← Node.readSegments? read segments
      let block ← Node.readOptional? read block
      return .selector ⟨segments, ← Node.readPlace? line column⟩ block
    | _ => none
  | "call" =>
    match fields ["name", "args", "lineno", "column"] with
    | some [name, args, line, column] => do
      let name ← required Json.string? name
      return .call name (← Node.readArguments? read args) (← Node.readPlace? line column)
    | _ => none
  | "function" =>
    match fields ["name", "params", "block", "lineno", "column"] with
    | some [name, params, block, line, column] => do
      let name ← required Json.string? name
      let params ← withDefault [] Json.strings? params
      return .function name params (← Node.readOptional? read block) (← Node.readPlace? line column)
    | _ => none
  | "rgba" =>
    match fields ["r", "g", "b", "a", "raw", "lineno", "column"] with
    | some [red, green, blue, alpha, raw, line, column] => do
      let red ← required Json.float? red
      let green ← required Json.float? green
      let blue ← required Json.float? blue
      let alpha ← required Json.float? alpha
      let raw ← required Json.string? raw
      return .rgba ⟨red, green, blue, alpha⟩ raw (← Node.readPlace? line column)
    | _ => none
  | "unit" =>
    match fields ["val", "type", "lineno", "column"] with
    | some [value, suffix, line, column] => do
      let value ← required Json.float? value
      let suffix ← optional Json.string? suffix
      return .unit value suffix (← Node.readPlace? line column)
    | _ => none
  | "binop" =>
    match fields ["op", "left", "right", "lineno", "column"] with
    | some [op, left, right, line, column] => do
      let op ← required Json.string? op
      return .binary op (← left.bind read) (← right.bind read) (← Node.readPlace? line column)
    | _ => none
  | "string" =>
    match fields ["val", "lineno", "column"] with
    | some [value, line, column] => do
      return .string (← required Json.string? value) (← Node.readPlace? line column)
    | _ => none
  | "expression" =>
    match fields ["nodes", "lineno", "column"] with
    | some [nodes, line, column] => do
      return .expression ⟨← Node.readList? read nodes, ← Node.readPlace? line column⟩
    | _ => none
  | "object" =>
    match fields ["vals", "lineno", "column"] with
    | some [vals, line, column] => do
      return .object (← Node.readEntries? read vals) (← Node.readPlace? line column)
    | _ => none
  | "ternary" =>
    match fields ["cond", "trueExpr", "falseExpr", "lineno", "column"] with
    | some [condition, whenTrue, whenFalse, line, column] => do
      return .ternary (← condition.bind read) (← whenTrue.bind read) (← whenFalse.bind read)
        (← Node.readPlace? line column)
    | _ => none
  | "property" =>
    match fields ["segments", "expr", "lineno", "column"] with
    | some [segments, value, line, column] => do
      let segments ← Node.readSegments? read segments
      let value ← Node.readOptionalExpression? read value
      return .property segments value (← Node.readPlace? line column)
    | _ => none
  | "atblock" =>
    match fields ["nodes", "lineno", "column"] with
    | some [nodes, line, column] => do
      return .atblock (← Node.readList? read nodes) (← Node.readPlace? line column)
    | _ => none
  | _ =>
    match Wrapper.ofTag? tag, Directive.ofTag? tag with
    | some kind, _ =>
      match fields ["nodes", "block", "lineno", "column"] with
      | some [nodes, block, line, column] => do
        let nodes ← Node.readList? read nodes
        return .wrapper kind nodes (← Node.readOptional? read block) (← Node.readPlace? line column)
      | _ => none
    | none, some kind =>
      match fields ["val", "block", "lineno", "column"] with
      | some [text, block, line, column] => do
        let text ← optional Json.string? text
        let block ← Node.readOptional? read block
        return .directive kind text block (← Node.readPlace? line column)
      | _ => none
    | none, none => (fields []).map fun _ => .other

end Layer

/-- The tags in the order in which they are counted. -/
def nodeTags : List String :=
  ["ident", "selector", "call", "function", "rgba", "unit", "binop", "string", "expression",
    "object", "ternary", "property", "atblock", "group", "root", "block", "media", "keyframes",
    "atrule", "import", "require", "supports", "literal", "other"]

/-- Read a tag. Inside another node it may also be given by its number. -/
def Node.readTag? (isInner : Bool) : Json → Option String
  | .string tag => some tag
  | .number (.nat index) => if isInner then some (nodeTags[index]?.getD "other") else none
  | _ => none

/-- Read a node, which may stand inside another one. As an array, a node starts with its tag, and
its fields follow in their order. -/
def Node.read? (isInner : Bool) (j : Json) : Option Node :=
  let read (part : Json.Part j) : Option Node := Node.read? true part.val
  match _shape : j with
  | .object members =>
    match members.filter (·.1 = "nodeName") with
    | [(_, tag)] =>
      (Node.readTag? isInner tag).bind fun tag =>
        Node.readFields? read tag fun names => j.record? names
    | _ => none
  | .array (tag :: rest) =>
    let widen (part : Json.Part (.array rest)) : Json.Part j :=
      ⟨part.val, by have := part.property; rw [_shape]; simp at *; omega⟩
    (Node.readTag? isInner tag).bind fun tag => Node.readFields? read tag fun names =>
      (Json.record? names (.array rest)).map fun fields => fields.map fun field => field.map widen
  | _ => none
termination_by sizeOf j
decreasing_by exact part.property

/-- Read a tree. -/
def Node.ofJson? (j : Json) : Option Node :=
  Node.read? false j

end StyleSense
