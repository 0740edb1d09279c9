import PageManifest.Toml.Attempt

/-!
# Tables of settings files

Keys are put into tables one after the other. A dotted key or a header creates the tables
that it leads through. No table is given twice: not by two headers, and not by dotted
keys once it has a header or stands between braces.
-/

namespace PageManifest.Toml

/-- What leads through tables. -/
inductive Approach where
  /-- The parts of a header. -/
  | header
  /-- A dotted key on a line of its own. -/
  | dotted
  /-- A dotted key between braces. -/
  | braced
deriving DecidableEq, Repr

/-- How the tables come to be that an approach creates. -/
def Approach.origin : Approach → Origin
  | .header => .implied
  | .dotted | .braced => .dotted

/-- Whether an approach may go on through a table. -/
def Approach.mayEnter : Approach → Origin → Bool
  | .header, .inline => false
  | .header, _ => true
  | _, .header | _, .inline => false
  | _, _ => true

/-- Why an approach cannot go on through an item. -/
def Approach.obstacle (approach : Approach) (behind : List String) (key : Key) (item : Item) : Cause :=
  match approach, item with
  | .braced, .table .inline _ _ => .repeatedKey key.text none
  | _, .table .header _ _ => .repeatedKey key.text none
  | _, item => .extendsValue (behind ++ [key.text]) item.kind

/-- Changes the table to which some keys lead, creating it if it is not there. -/
def within {α : Type} (approach : Approach) (change : Origin → Entries → Except Cause (Entries × α)) :
    List String → List Key → Origin → Entries → Except Cause (Entries × α)
  | _, [], origin, entries => change origin entries
  | behind, key :: keys, _, entries =>
    match Entries.get? entries key.text with
    | none => do
      let (inner, a) ← within approach change (behind ++ [key.text]) keys approach.origin []
      return (entries ++ [(key, .table approach.origin none inner)], a)
    | some (.table origin stretch inner) =>
      if approach.mayEnter origin then do
        let (inner, a) ← within approach change (behind ++ [key.text]) keys origin inner
        return (Entries.replace entries key.text (.table origin stretch inner), a)
      else .error (approach.obstacle behind key (.table origin stretch inner))
    | some (.tables stretch items) =>
      match items.getLast? with
      | some (.table origin own inner) => do
        let (inner, a) ← within approach change (behind ++ [key.text]) keys origin inner
        let items := items.dropLast ++ [.table origin own inner]
        return (Entries.replace entries key.text (.tables stretch items), a)
      | _ => .error (.extendsValue (behind ++ [key.text]) "array of tables")
    | some item => .error (approach.obstacle behind key item)

/-- Puts an item under a dotted key. A table that was not created by dotted keys cannot
be added to by them. The table is named if the key is there already. -/
def putItem (approach : Approach) (table : Option (List String)) (path : List Key) (key : Key)
    (item : Item) (entries : Entries) : Except Cause Entries := do
  let change := fun (origin : Origin) (entries : Entries) =>
    if !path.isEmpty && origin ≠ .dotted then Except.error (.repeatedKey key.text none)
    else if (Entries.get? entries key.text).isSome then .error (.repeatedKey key.text table)
    else .ok (entries ++ [(key, item)], ())
  return (← within approach change [] path .header entries).1

/-! ## The tables of a document -/

/-- A document while it is read: the tables that are complete, and the one that lines
are added to, with the keys of its header. -/
structure Draft where
  entries : Entries := []
  path : List Key := []
  /-- Whether the header has double brackets. -/
  isRepeatable : Bool := false
  stretch : Option Stretch := none
  current : Entries := []

namespace Draft

/-- The stretch of tables that follow each other. -/
def spanning (items : List Item) : Option Stretch := do
  let first ← (← items.head?).stretch?
  let last ← (← items.getLast?).stretch?
  return ⟨first.leftAtStart, last.leftAtEnd⟩

/-- Puts the current table in its place. -/
def closed (draft : Draft) : Except Cause Entries :=
  match draft.path.getLast? with
  | none => .ok draft.current
  | some key => do
    let table := Item.table .header draft.stretch draft.current
    let repeated := Cause.repeatedKey (writeKey key.text) (some (draft.path.dropLast.map Key.text))
    let change := fun (_ : Origin) (entries : Entries) =>
      match Entries.get? entries key.text, draft.isRepeatable with
      | none, true => Except.ok (entries ++ [(key, .tables draft.stretch [table])], ())
      | some (.tables _ items), true =>
        let items := items ++ [table]
        .ok (Entries.replace entries key.text (.tables (spanning items) items), ())
      | none, false => .ok (entries ++ [(key, table)], ())
      | some (.table .implied _ _), false => .ok (Entries.replace entries key.text table, ())
      | _, _ => .error repeated
    return (← within .header change [] draft.path.dropLast .header draft.entries).1

/-- Starts a table by its header. A table that is implied so far keeps its entries. -/
def start (draft : Draft) (path : List Key) (isRepeatable : Bool) (stretch : Stretch) :
    Except Cause Draft := do
  let entries ← draft.closed
  match path.getLast? with
  | none => return { draft with entries }
  | some key =>
    let repeated := Cause.repeatedKey (writeKey key.text) (some (path.dropLast.map Key.text))
    let change := fun (_ : Origin) (entries : Entries) =>
      match Entries.get? entries key.text, isRepeatable with
      | none, _ => Except.ok (entries, ([] : Entries))
      | some (.tables _ _), true => .ok (entries, [])
      | some (.table .implied _ inner), false => .ok (Entries.remove entries key.text, inner)
      | _, _ => .error repeated
    let (entries, current) ← within .header change [] path.dropLast .header entries
    return { entries, path, isRepeatable, stretch := some stretch, current }

/-- Adds a line with a key and a value to the current table. -/
def add (draft : Draft) (path : List Key) (key : Key) (item : Item) : Except Cause Draft := do
  let current ← putItem .dotted (some (draft.path.map Key.text)) path key item draft.current
  let stretch := match draft.stretch, item.stretch? with
    | some own, some last => some ⟨own.leftAtStart, last.leftAtEnd⟩
    | own, _ => own
  return { draft with current, stretch }

end Draft

end PageManifest.Toml
