import CodeIndex.Refresh.Run
import CodeIndex.Search.Pipeline
import CodeIndex.Session.World

namespace CodeIndex

/-- An index over a workspace in memory, worked on step by step. At most one refresh is open at a
time. Each step has an answer, and a step that fails leaves the session going. -/
structure Session where
  world : World
  store : Store
  /-- Whether the store outlives its being closed. -/
  durable : Bool
  settings : Settings
  sizes : SearchSizes
  refresh : Option Run

namespace Session

/-- What a refresh is asked to bring up to date. -/
inductive Target where
  | files (paths : List Path)
  | dirs (dirs : List Path)
  | workspace

inductive StoreStep where
  | commit (tag : Tag) (path : Path) (hash : String)
  | forget (tag : Tag) (path : Path)
  | forgetTag (tag : Tag)

inductive Step where
  | write (path : Path) (bytes : Bytes)
  | delete (path : Path)
  | unreadable (path : Path) (fault : Option IndexError)
  | breakDir (dir : Path) (reason : Option String)
  | setBranch (dir : Path) (branch : String)
  | setDirs (dirs : List Path)
  | cancelOnRead (path : Option Path)
  | pause (paused : Bool)
  | cancel
  | openRefresh (target : Target) (cancelled : Bool)
  | poll (most : Nat)
  | drain
  | close
  | refresh (target : Target) (cancelled : Bool)
  | clear
  | reopen
  | tags
  | stats
  | texts
  | catalog (tag : Option Tag)
  | hash (tag : Option Tag) (path : Path)
  | metadata (tag : Option Tag) (path : Path)
  | chunks (tag : Option Tag) (path : Path)
  | embeddings (tag : Option Tag) (path : Path)
  | segments (tag : Option Tag) (path : Path)
  | counts
  | query (text : Text) (tags : Option (List Tag)) (dir : Option Path) (sizes : SearchSizes)
      (normalize : Bool)
  | fullText (text : Text) (tags : Option (List Tag)) (dir : Option Path) (limit : Nat)
  | similar (text : Text) (tags : Option (List Tag)) (dir : Option Path) (limit : Nat)
  | transaction (steps : List StoreStep) (rollback : Bool)
  | diff (tags : List Tag) (listed : List Path) (hashes : PathMap String)
  | update (kind : ArtifactKind) (change : Change) (entry : FileEntry) (tag : Option Tag)
  | clearArtifact (kind : ArtifactKind) (tag : Option Tag)
  | watch (dirs : List Path)

/-- How a series of turns ended; without a refresh there is none. -/
inductive State where
  | stillOpen
  | ended
  | blocked
  | closed

inductive Answer where
  | nothing
  | failed (e : IndexError)
  | text (t : String)
  | number (n : Nat)
  | items (items : List Progress) (state : State)
  | keys (keys : List String)
  | stats (calls texts : Nat)
  | batches (batches : List (List Text))
  | records (records : Records)
  | hash (hash : Option String)
  | facts (facts : List Fact)
  | chunks (rows : List ChunkRow)
  | embeddings (rows : List EmbeddingRow)
  | windows (rows : List Window)
  | counts (catalog facts texts segments chunks embeddings : Nat)
  | hits (hits : List Hit)
  | removals (counts : List (Option Nat))
  | changes (changes : List FileChange)
  | outcome (outcome : Outcome)

def outside (s : Session) (ask : StateM World α) : α × Session :=
  let (a, world) := ask.run s.world
  (a, { s with world })

def allTags (s : Session) : List Tag := (s.outside World.host.tags).1

def tagsFor (s : Session) (kind : ArtifactKind) : List Tag :=
  (s.outside (World.host.tagsFor kind.id)).1

/-- The tag of an artifact in the first directory of the workspace. -/
def tagOr (s : Session) (kind : ArtifactKind) (tag : Option Tag) : Tag :=
  tag.getD ((s.tagsFor kind).head?.getD ⟨"", "", kind.id⟩)

def slot (s : Session) (kind : ArtifactKind) (tag : Option Tag) (path : Path) : Slot :=
  ⟨(s.tagOr kind tag).key, path⟩

def planFor (s : Session) (target : Target) : StateM World (Except IndexError Run) :=
  let ofDirs (dirs : List Path) : StateM World (Except IndexError Run) := do
    return (← Plan.ofDirs World.host s.settings s.store dirs).map Run.ofPlan
  match target with
  | .files paths => return .ok (Run.ofFiles paths)
  | .dirs dirs => ofDirs dirs
  | .workspace => ofDirs s.world.dirs

/-- Opens a refresh in the place of any other; it is cancelled by a switch of its own. -/
def startRefresh (s : Session) (target : Target) (cancelled : Bool) : Answer × Session :=
  let s := { s with refresh := none, world := { s.world with cancelled } }
  match s.outside (s.planFor target) with
  | (.error e, s) => (.failed e, s)
  | (.ok run, s) => (.text "opened", { s with refresh := some run })

def stateOf : Run.Ending → State
  | .reached => .stillOpen
  | .ended => .ended
  | .held => .blocked

/-- Takes turns of the open refresh, at most so many or as many as there are. -/
def pull (s : Session) (most : Option Nat) : Answer × Session :=
  match s.refresh with
  | none => (.items [] .closed, s)
  | some run =>
    let ((items, ending, run, store), s) := s.outside
      (match most with
        | some most => Run.take World.host s.settings most run s.store
        | none => Run.drain World.host s.settings run s.store)
    (.items items (stateOf ending), { s with store, refresh := some run })

def refreshAll (s : Session) (target : Target) (cancelled : Bool) : Answer × Session :=
  match s.startRefresh target cancelled with
  | (.failed e, s) => (.failed e, s)
  | (_, s) =>
    let (answer, s) := s.pull none
    (answer, { s with refresh := none })

def hitsOrError : Except IndexError (List Hit) → Answer
  | .ok hits => .hits hits
  | .error e => .failed e

def storeStep (st : Store) : StoreStep → Option Nat × Store
  | .commit tag path hash => (none, st.record ⟨tag.key, path⟩ hash)
  | .forget tag path => (none, st.forget ⟨tag.key, path⟩)
  | .forgetTag tag => (some (st.records tag.key).length, st.forgetTag tag.key)

def storeSteps (st : Store) : List StoreStep → List (Option Nat) × Store
  | [] => ([], st)
  | step :: steps =>
    let (answer, st) := storeStep st step
    let (answers, st) := storeSteps st steps
    (answer :: answers, st)

/-- One update of one artifact on its own. -/
def updateArtifact (s : Session) (kind : ArtifactKind) (change : Change) (e : FileEntry)
    (tag : Option Tag) : Answer × Session :=
  let tag := s.tagOr kind tag
  let (made, s) :=
    if kind = .embeddings then s.outside (prepare World.host s.settings e change)
    else (.ok (some []), s)
  match made with
  | .error err => (.failed err, s)
  | .ok embedded =>
    match s.store.update s.settings kind tag e change (embedded.getD []) with
    | .error err => (.failed err, s)
    | .ok (store, outcome) => (.outcome outcome, { s with store })

/-- No directory of a workspace in memory can be watched. -/
def watch : List Path → Answer
  | [] => .text "started"
  | _ :: _ => .failed .watcher

def step (s : Session) : Step → Answer × Session
  | .write path bytes =>
    (.nothing, { s with world := { s.world with files := s.world.files.set path bytes } })
  | .delete path =>
    (.nothing, { s with world := { s.world with files := s.world.files.erase path } })
  | .unreadable path fault =>
    let unreadable := match fault with
      | some e => s.world.unreadable.set path e
      | none => s.world.unreadable.erase path
    (.nothing, { s with world := { s.world with unreadable } })
  | .breakDir dir reason =>
    let broken := match reason with
      | some reason => s.world.broken.set dir reason
      | none => s.world.broken.erase dir
    (.nothing, { s with world := { s.world with broken } })
  | .setBranch dir branch =>
    (.nothing, { s with world := { s.world with branches := s.world.branches.set dir branch } })
  | .setDirs dirs => (.nothing, { s with world := { s.world with dirs } })
  | .cancelOnRead path => (.nothing, { s with world := { s.world with cancelOnRead := path } })
  | .pause paused => (.nothing, { s with world := { s.world with paused } })
  | .cancel => (.nothing, { s with world := { s.world with cancelled := true } })
  | .openRefresh target cancelled => s.startRefresh target cancelled
  | .poll most => s.pull (some most)
  | .drain => s.pull none
  | .close => (.nothing, { s with refresh := none })
  | .refresh target cancelled => s.refreshAll target cancelled
  | .clear =>
    let (store, s) := s.outside (clearIndexes World.host s.store)
    (.nothing, { s with store })
  | .reopen =>
    (.nothing, { s with refresh := none, store := if s.durable then s.store else Store.empty })
  | .tags => (.keys (s.allTags.map Tag.key), s)
  | .stats => (.stats s.world.provider.buckets.calls s.world.provider.buckets.texts, s)
  | .texts =>
    (.batches s.world.provider.log,
      { s with world := { s.world with provider := { s.world.provider with log := [] } } })
  | .catalog tag => (.records (s.store.records (s.tagOr .metadata tag).key), s)
  | .hash tag path => (.hash (s.store.hash? (s.slot .metadata tag path)), s)
  | .metadata tag path => (.facts (s.store.facts.rows (s.slot .metadata tag path)), s)
  | .chunks tag path => (.chunks (s.store.chunks.rows (s.slot .chunk tag path)), s)
  | .embeddings tag path =>
    (.embeddings (s.store.embeddings.rows (s.slot .embeddings tag path)), s)
  | .segments tag path => (.windows (s.store.windows (s.slot .fullText tag path)), s)
  | .counts =>
    let st := s.store
    (.counts st.catalog.length st.facts.length st.texts.length st.segments.length
      st.chunks.length st.embeddings.length, s)
  | .query text tags dir sizes normalize =>
    let normalizer := if normalize then Ranking.byBestScore else Ranking.keepScores
    let q : SearchQuery := ⟨Tag.collect (tags.getD s.allTags), dir, text⟩
    let (hits, s) := s.outside
      (search World.host Buckets.providerName normalizer sizes s.store q)
    (hitsOrError hits, s)
  | .fullText text tags dir limit =>
    (hitsOrError (FullText.retrieve s.store (tags.getD (s.tagsFor .fullText)) dir text limit), s)
  | .similar text tags dir limit =>
    let (hits, s) := s.outside
      (CodeIndex.similar World.host Buckets.providerName s.store
        (tags.getD (s.tagsFor .embeddings)) dir text limit)
    (hitsOrError hits, s)
  | .transaction steps rollback =>
    let (answers, store) := storeSteps s.store steps
    (.removals answers, if rollback then s else { s with store })
  | .diff tags listed hashes =>
    let catalogs := tags.map fun tag => s.store.records tag.key
    (.changes (FileChange.plan catalogs listed hashes.at?), s)
  | .update kind change entry tag => s.updateArtifact kind change entry tag
  | .clearArtifact kind tag =>
    let key := (s.tagOr kind tag).key
    (.number (s.store.countUnder kind key), { s with store := s.store.clear kind key })
  | .watch dirs => (watch dirs, s)

def run (s : Session) : List Step → List Answer × Session
  | [] => ([], s)
  | step :: steps =>
    let (answer, s) := s.step step
    let (answers, s) := run s steps
    (answer :: answers, s)

end Session
end CodeIndex
