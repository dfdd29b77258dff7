import Pinboard.Entity
import Pinboard.Store.Transaction
import Pinboard.Text.Blank

/-!
# Tag definitions in the store

Making, finding, listing and removing the tags of an owner, and ranking them by their last use.
-/

namespace Pinboard.Store

/-- The tag in a row. A name that is no kind stands for a tag without a value. -/
def TagRow.read (r : TagRow) : Except StorageError Tag := do
  let kind ← r.kind.readText 3 "tag_type"
  let owner ← readUInt32 r.owner 0
  let key ← r.key.readText 1 "key"
  let color ← r.color.readText 2 "color"
  pure ⟨owner, key, color, TagKind.ofName kind⟩

/-- The row of a tag, still to be numbered. -/
def TagRow.ofTag (tag : Tag) : TagRow :=
  ⟨unnumbered, wide tag.owner, .text tag.key, .text tag.color, .text tag.kind.name⟩

/-- What a new tag is refused for. Every rule that the row breaks counts as the key being taken. -/
def blameTag (key : String) (e : StorageError) : Refusal :=
  if e.isConstraint then .tagExists key else .storage e

/-- Makes a tag. -/
def createTag (s : Setting) (tag : Tag) : Operation Tag :=
  if Text.allBlank tag.key then refused .blankTagKey
  else autocommit s true (requireFor · .tags .insert) do
    Steps.tryWith (blameTag tag.key) (fun _ => 1) (insertTag s (.ofTag tag))
    pure tag

/-- The rows of an owner. -/
def Tables.tagsOf (t : Tables) (owner : UserId) : Except StorageError (List TagRow) := do
  pure ((← t.tagRows).filter (·.owner == wide owner))

/-- The tag of an owner with a key, if there is one. -/
def findTag (s : Setting) (owner : UserId) (key : String) : Operation (Option Tag) :=
  inspect s (requireTable · .tags) fun t => fromStorage do
    match (← t.tagsOf owner).find? (·.key == .text key) with
    | some r => some <$> r.read
    | none => pure none

/-- Has one tag a smaller key than another, or the same? -/
def TagRow.keyBefore (a b : TagRow) : Bool := (a.key.compare b.key).isLE

/-- An owner's tags by key. -/
def listTags (s : Setting) (owner : UserId) : Operation (List Tag) :=
  inspect s (requireTable · .tags) fun t => fromStorage do
    ((← t.tagsOf owner).mergeSort TagRow.keyBefore).mapM TagRow.read

/-- The moment a key was last used by its owner, if it was. -/
def lastUse? (recents : List RecentRow) (r : TagRow) : Option Cell :=
  (recents.find? (·.isFor r.owner r.key)).map (·.lastUsed)

/-- Orders moments of use: the later first, and those that never came last. -/
def compareUse : Option Cell → Option Cell → Ordering
  | some a, some b => b.compare a
  | some _, none => .lt
  | none, some _ => .gt
  | none, none => .eq

/-- Does one tag rank before another, or are they one? By last use, then by key. -/
def ranksBefore (recents : List RecentRow) (a b : TagRow) : Bool :=
  ((compareUse (lastUse? recents a) (lastUse? recents b)).then (a.key.compare b.key)).isLE

/-- The tables that a ranking needs. -/
def requireRanking (k : Schema) : Except StorageError Unit := do
  requireTable k .tags
  requireTable k .recents

/-- An owner's tags, those used most recently first and those never used last. -/
def rankTags (s : Setting) (owner : UserId) : Operation (List Tag) :=
  inspect s requireRanking fun t => fromStorage do
    let recents ← t.recentRows
    ((← t.tagsOf owner).mergeSort (ranksBefore recents)).mapM TagRow.read

/-- Removes a tag of an owner and forgets that its key was used. -/
def removeTag (s : Setting) (owner : UserId) (key : String) : Operation Unit :=
  transactionFrom s (requireFor · .tags .delete) do
    let count ← Steps.changeMany (deleteTag s (wide owner) (.text key))
    if count = 0 then Steps.refuse (.tagMissing key)
    else
      let _ ← Steps.changeMany (deleteRecent s (wide owner) (.text key))

end Pinboard.Store
