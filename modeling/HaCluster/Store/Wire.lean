import HaCluster.Store.Basic
import HaCluster.Tree.Wire

/-!
# Journal settings as documents
-/

namespace HaCluster.Journal

/-- The document for the settings of a journal. -/
def toJson (j : Journal) : Json :=
  .object [("exclude", .array (j.exclude.map Path.toJson)), ("head", j.head.toJson)]

/-- Reads the settings of a journal. -/
def decode : Decoder Journal :=
  Decode.record "JournalConfig"
    [Field.required "head" Path.decode (fun p j => { j with head := p }),
     Field.required "exclude" (Decode.list Path.decode) (fun ps j => { j with exclude := ps })]
    default

end HaCluster.Journal
