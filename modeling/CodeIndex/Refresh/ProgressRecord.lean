import CodeIndex.Json.Record
import CodeIndex.Refresh.Progress

namespace CodeIndex.Progress

def ofJson? (j : Json) : Option Progress := do
  let fields ← j.record?
    ["status", "progress", "description", "file_path", "diff", "cancelled"] 6
  match fields with
  | [some status, some fraction, some description, path, change, some cancelled] =>
    return {
      status := ← status.variant?.bind Status.ofName?
      fraction := ← fraction.binary32?
      description := ← description.string?
      path := ← Json.orNothing? Json.string? path
      change := ← Json.orNothing? (fun c => c.variant?.bind Change.ofName?) change
      cancelled := ← cancelled.bool? }
  | _ => none

end CodeIndex.Progress
