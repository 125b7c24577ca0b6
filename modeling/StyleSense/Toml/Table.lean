import StyleSense.Json.Record

/-!
Contract: the tables of a settings file.

A table is opened by a header, by a header of one of its subtables, or by a key with dots. Each way
allows different additions later on, so an entry remembers how it came about.

Owns:
- `Toml.Item` and its view as JSON, and `Toml.dialect`, how records are read from that view;
- `Toml.Draft`, a file that has been read up to some line, and the statements that extend it.

Does not own: the text of statements (`StyleSense.Toml.Reader`).
-/

namespace StyleSense.Toml

/-- A list may be longer than the record that it is read as, and an empty list or an empty table is
the content of a choice that has none. -/
def dialect : Json.Dialect where
  passesOver := true
  isVoid
    | .array [] => true
    | .object [] => true
    | _ => false

/-- An entry of a table. -/
inductive Item where
  | value (json : Json)
  /-- A table; `implied` when only its subtables were named, `dotted` when it came from a key with
  dots. -/
  | table (implied dotted : Bool) (entries : List (String × Item))
  /-- Tables under one repeated header. -/
  | tables (items : List Item)

namespace Item

mutual

/-- An entry as JSON. -/
def toJson : Item → Json
  | value json => json
  | table _ _ entries => .object (entriesToJson entries)
  | tables items => .array (itemsToJson items)

/-- The entries of a table as fields. -/
private def entriesToJson : List (String × Item) → List (String × Json)
  | [] => []
  | (key, item) :: rest => (key, item.toJson) :: entriesToJson rest

/-- Tables as JSON. -/
private def itemsToJson : List Item → List Json
  | [] => []
  | item :: rest => item.toJson :: itemsToJson rest

end

/-- The entry with a given key. -/
def lookup? (key : String) (entries : List (String × Item)) : Option Item :=
  (entries.find? fun entry => entry.1 = key).map Prod.snd

/-- The entries with one of them set. -/
def set (key : String) (item : Item) (entries : List (String × Item)) : List (String × Item) :=
  (entries.filter fun entry => entry.1 ≠ key) ++ [(key, item)]

/-- Change the table at the end of a chain of keys, making tables as needed; `dotted` tells whether
the chain is a key with dots. The last of repeated tables is meant. -/
def update {α : Type} (dotted : Bool) (change : Item → Option (Item × α)) :
    List String → Item → Option (Item × α)
  | [], item => change item
  | key :: keys, table implied own entries =>
    let put (item : Item) : Item := .table implied own (set key item entries)
    match (lookup? key entries).getD (.table true dotted []) with
    | value _ => none
    | tables items =>
      match items.getLast? with
      | none => none
      | some last =>
        (update dotted change keys last).map fun (item, found) =>
          (put (.tables (items.dropLast ++ [item])), found)
    | table inner innerDotted innerEntries =>
      if dotted && !inner then none
      else
        (update dotted change keys (.table inner innerDotted innerEntries)).map
          fun (item, found) => (put item, found)
  | _ :: _, _ => none

/-- Set a key, which may have dots, in a table; a key that is there is refused. -/
def assign (keys : List String) (json : Json) (item : Item) : Option Item :=
  match keys.getLast? with
  | none => none
  | some key =>
    let chain := keys.dropLast
    let change : Item → Option (Item × Unit)
      | table implied dotted entries =>
        if dotted == chain.isEmpty || (lookup? key entries).isSome then none
        else some (.table implied dotted (set key (.value json) entries), ())
      | _ => none
    (update true change chain item).map Prod.fst

end Item

/-- A file that has been read up to some line: what is complete, and the table being filled with the
keys that lead to it. -/
structure Draft where
  root : Item
  current : Item
  keys : List String
  /-- The table stands under a repeated header. -/
  isRepeated : Bool

namespace Draft

/-- Nothing has been read. -/
def empty : Draft :=
  ⟨.table false false [], .table false false [], [], false⟩

/-- Put the table being filled in its place. -/
def finish (draft : Draft) : Option Item :=
  match draft.keys.getLast? with
  | none => some draft.current
  | some key =>
    let change : Item → Option (Item × Unit)
      | .table implied dotted entries =>
        match Item.lookup? key entries, draft.isRepeated with
        | none, true =>
          some (.table implied dotted (Item.set key (.tables [draft.current]) entries), ())
        | some (.tables items), true =>
          let grown := .tables (items ++ [draft.current])
          some (.table implied dotted (Item.set key grown entries), ())
        | none, false => some (.table implied dotted (Item.set key draft.current entries), ())
        | _, _ => none
      | _ => none
    (draft.root.update false change draft.keys.dropLast).map Prod.fst

/-- Start the table under a header. A table that was only implied may be given a header once. -/
def openTable (draft : Draft) (keys : List String) : Option Draft := do
  let root ← draft.finish
  let key ← keys.getLast?
  let change : Item → Option (Item × List (String × Item))
    | .table implied dotted entries =>
      match Item.lookup? key entries with
      | none => some (.table implied dotted entries, [])
      | some (.table true false inner) =>
        some (.table implied dotted (entries.filter fun entry => entry.1 ≠ key), inner)
      | some _ => none
    | _ => none
  let (root, entries) ← root.update false change keys.dropLast
  return ⟨root, .table false false entries, keys, false⟩

/-- Start one more table under a repeated header. -/
def openRepeated (draft : Draft) (keys : List String) : Option Draft := do
  let root ← draft.finish
  let key ← keys.getLast?
  let change : Item → Option (Item × Unit)
    | .table implied dotted entries =>
      match Item.lookup? key entries with
      | none | some (.tables _) => some (.table implied dotted entries, ())
      | some _ => none
    | _ => none
  let (root, _) ← root.update false change keys.dropLast
  return ⟨root, .table false false [], keys, true⟩

/-- Set a key of the table being filled. -/
def assign (draft : Draft) (keys : List String) (json : Json) : Option Draft :=
  (draft.current.assign keys json).map fun current => { draft with current }

end Draft

end StyleSense.Toml
