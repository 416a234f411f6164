import SignalCoach.Json.Value
import SignalCoach.Rule.Basic

/-! The wire form of a condition: an object whose key is the kind and whose value is the body. It is
folded into one object with the kind under `kind`. -/
namespace SignalCoach.Rule

/-- The folded form of a body under a kind. The body's own members come after the kind, so a `kind`
among them replaces it. -/
def foldBody (kind : Kind) (body : Value) : Value :=
  match body with
  | .obj fields => .obj (fields.foldl (fun done (k, v) => Fields.put done k v)
      [(.text "kind", .str kind.name)])
  | body =>
    if kind = .marketOpen then
      .object [("kind", .str kind.name), ("minutes", body)]
    else .object [("kind", .str kind.name)]

/-- Folds an object without `kind` by the first kind among its keys. Everything else is left as it
is. -/
def unwrap (v : Value) : Value :=
  match v with
  | .obj fields =>
    if Fields.has fields "kind" then v
    else match Kind.all.findSome? fun kind => (Fields.get? fields kind.name).map (kind, ·) with
      | some (kind, body) => foldBody kind body
      | none => v
  | v => v

end SignalCoach.Rule
