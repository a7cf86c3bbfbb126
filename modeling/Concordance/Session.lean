import Concordance.Command
import Concordance.Config
import Concordance.Query.Answer
import Concordance.Response
import Concordance.Snapshot

/-!
# Sessions

A session holds an index and the configuration that says where its snapshot is. Every function
takes the files as they are, and gives them as they are afterwards if it writes any.
-/

namespace Concordance

/-- An index that is worked on. -/
structure Session where
  config : Config
  index : Trie := .empty
  deriving Inhabited

namespace Session

def loadSnapshot (files : Files) (path : String) : Except SearchError Trie :=
  match files.readText path with
  | .error cause => .error (.file cause)
  | .ok text => Snapshot.ofText text

def save (s : Session) (files : Files) : Files × Except SearchError Unit :=
  match files.save s.config.snapshotPath (Snapshot.render s.index).toUTF8 with
  | (files', .ok ()) => (files', .ok ())
  | (files', .error cause) => (files', .error (.file cause))

/-- Takes the index from the snapshot file, or an empty one if that cannot be read. -/
def reload (s : Session) (files : Files) : Response × Session :=
  match loadSnapshot files s.config.snapshotPath with
  | .ok t => (.loaded, { s with index := t })
  | .error _ => (.loadFailed, { s with index := .empty })

/-- A session for the shell. It reads the snapshot if it should and there is one. -/
def start (config : Config) (files : Files) : Option Response × Session :=
  let s : Session := { config }
  if config.autoload && files.exists? config.snapshotPath then
    match s.reload files with
    | (r, s') => (some r, s')
  else (none, s)

/-- A session for one command. If there is a snapshot it must be readable, so that it cannot be
overwritten unseen. -/
def ofSnapshot (config : Config) (files : Files) : Except SearchError Session :=
  if files.exists? config.snapshotPath then
    match loadSnapshot files config.snapshotPath with
    | .ok t => .ok { config, index := t }
    | .error e => .error e
  else .ok { config }

def execute (s : Session) (files : Files) : Command → Response × Session × Files
  | .index id words => (.indexed id, { s with index := s.index.addDocument id words }, files)
  | .query chunks =>
    match Query.answerChunks s.index chunks with
    | .ok ids => (.results ids, s, files)
    | .error e => (.ofError e, s, files)
  | .save =>
    match s.save files with
    | (files', .ok ()) => (.saved, s, files')
    | (files', .error e) => (.ofError e, s, files')
  | .load =>
    match s.reload files with
    | (r, s') => (r, s', files)
  | .clear => (.cleared, { s with index := .empty }, files)
  | .exit => (.bye, s, files)

/-- Carries out the command of a line. A blank line has no response. -/
def handleLine (s : Session) (files : Files) (line : String) :
    Option Response × Session × Files :=
  match Command.ofLine line with
  | .ok none => (none, s, files)
  | .ok (some command) =>
    match s.execute files command with
    | (r, s', files') => (some r, s', files')
  | .error e => (some (.ofError e), s, files)

end Session

end Concordance
