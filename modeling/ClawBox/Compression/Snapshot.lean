import ClawBox.Lib.PyDict
import ClawBox.Lib.Raising
import ClawBox.Lib.Transition
import Mathlib.Logic.Function.Basic

namespace ClawBox.Compression

open Transition Raising

/-- The compression binary and what the code relies on. -/
structure Binary (Data Box : Type) where
  compress : Data → Box
  decompress : Box → Option Data
  roundTrip : ∀ d, decompress (compress d) = some d

structure File (Data : Type) where
  data : Data
  mode : ℕ

structure Record where
  canonical : String
  aliases : List String
  mode : ℕ
  -- the index in the name of the container
  container : ℕ
  deriving DecidableEq

def Record.paths (r : Record) : List String := r.canonical :: r.aliases

structure Fs (Data Box : Type) where
  links : PyDict String ℕ
  inodes : ℕ → File Data
  fresh : ℕ
  -- `<snapshot>.zstd-pages` and the complete containers in it
  directory : Bool := false
  containers : PyDict ℕ Box := ∅
  manifest : Option (List Record) := none

structure Work (Data Box : Type) where
  fs : Fs Data Box
  records : List Record := []

inductive Fault
  | os
  | nothingOwned
  | binary
  | identity
  -- the process is gone
  | stop
  deriving DecidableEq

inductive Fate
  | done
  | fails
  | stops
  deriving DecidableEq

variable {Data Box : Type}

abbrev Io (Data Box : Type) := Raising (Work Data Box) Fault

def perform (f : Fate) (g : Fs Data Box → Fs Data Box) : Io Data Box Unit :=
  match f with
  | .done => modify fun w => { w with fs := g w.fs }
  | .fails => raise .os
  | .stops => raise .stop

def fromKeys {κ : Type} [DecidableEq κ] (l : List κ) : List κ := (l.foldl PySet.add ∅).keys

def nlink (fs : Fs Data Box) (inode : ℕ) : ℕ := (fs.links.entries.filter fun e => e.2 = inode).length

structure Group where
  canonical : String
  aliases : List String

def groupOf (candidates : List String) (fs : Fs Data Box) (inode : ℕ) : Option Group :=
  match fromKeys (candidates.filter fun p => fs.links.get? p = some inode) with
  | [] => none
  | p :: ps => if (p :: ps).length < nlink fs inode then none else some ⟨p, ps⟩

def ownedGroups (candidates : List String) (fs : Fs Data Box) : List Group :=
  (fromKeys (candidates.filterMap fun p => fs.links.get? p)).filterMap (groupOf candidates fs)

structure CompressFates where
  -- the read of a manifest that is there already
  read : Fate := .done
  groups : Fate := .done
  mkdir : Fate := .done
  pack : ℕ → Fate := fun _ => .done
  place : ℕ → Fate := fun _ => .done
  stat : ℕ → Fate := fun _ => .done
  sizes : Fate := .done
  write : Fate := .done
  replace : Fate := .done
  size : Fate := .done
  rewrite : Fate := .done
  replaceAgain : Fate := .done
  unlink : String → Fate := fun _ => .done
  -- in the handler
  dropContainer : ℕ → Fate := fun _ => .done
  rmtree : Fate := .done
  dropManifest : Fate := .done

def packGroups (b : Binary Data Box) (x : CompressFates) : ℕ → List Group → Io Data Box Unit
  | _, [] => pure ()
  | k, g :: gs => do
    let w ← get
    match w.fs.links.get? g.canonical with
    | none => raise .os
    | some i => do
      perform (x.pack k) id
      perform (x.place k) fun fs => { fs with containers := fs.containers.set k (b.compress (fs.inodes i).data) }
      perform (x.stat k) id
      modify fun w => { w with records := w.records ++ [⟨g.canonical, g.aliases, (w.fs.inodes i).mode, k⟩] }
      packGroups b x (k + 1) gs

def writeManifest (write replace : Fate) : Io Data Box Unit := do
  perform write id
  let w ← get
  perform replace fun fs => { fs with manifest := some w.records }

def unlinkPaths (x : CompressFates) : List String → Io Data Box Unit
  | [] => pure ()
  | p :: ps => do
    perform (x.unlink p) fun fs => { fs with links := fs.links.pop p }
    unlinkPaths x ps

def unlinkRecords (x : CompressFates) : List Record → Io Data Box Unit
  | [] => pure ()
  | r :: rs => do
    unlinkPaths x r.paths
    unlinkRecords x rs

def dropContainers (f : ℕ → Fate) : List Record → Io Data Box Unit
  | [] => pure ()
  | r :: rs => do
    perform (f r.container) fun fs => { fs with containers := fs.containers.pop r.container }
    dropContainers f rs

def rmtree (f : Fate) : Io Data Box Unit :=
  match f with
  | .fails => pure ()
  | _ => perform f fun fs => { fs with directory := false, containers := ∅ }

def dropManifest (f : Fate) : Io Data Box Unit := perform f fun fs => { fs with manifest := none }

def compressBody (b : Binary Data Box) (x : CompressFates) (groups : List Group) : Io Data Box Unit := do
  packGroups b x 0 groups
  perform x.sizes id
  writeManifest x.write x.replace
  perform x.size id
  writeManifest x.rewrite x.replaceAgain
  let w ← get
  unlinkRecords x w.records

def undo (x : CompressFates) (e : Fault) : Io Data Box Unit :=
  if e = .stop then raise .stop
  else do
    let w ← get
    dropContainers x.dropContainer w.records
    rmtree x.rmtree
    dropManifest x.dropManifest
    raise e

def compressSnapshot (b : Binary Data Box) (candidates : List String) (x : CompressFates) : Io Data Box Unit := do
  let w ← get
  match w.fs.manifest with
  | some _ => perform x.read id
  | none => do
    perform x.groups id
    let groups := ownedGroups candidates w.fs
    if groups.isEmpty then raise .nothingOwned
    else if w.fs.directory then raise .os
    else do
      perform x.mkdir fun fs => { fs with directory := true }
      (compressBody b x groups).tryExcept (undo x)

structure DecompressFates where
  read : Fate := .done
  -- by container: the parent directory and the left-over temporary file, the binary, `chmod`, `os.replace`
  prepare : ℕ → Fate := fun _ => .done
  unpack : ℕ → Fate := fun _ => .done
  chmod : ℕ → Fate := fun _ => .done
  replace : ℕ → Fate := fun _ => .done
  link : String → Fate := fun _ => .done
  check : ℕ → Fate := fun _ => .done
  dropContainer : ℕ → Fate := fun _ => .done
  rmtree : Fate := .done
  dropManifest : Fate := .done
  sizes : Fate := .done

def Fs.create (fs : Fs Data Box) (p : String) (f : File Data) : Fs Data Box :=
  { fs with
    links := fs.links.set p fs.fresh
    inodes := Function.update fs.inodes fs.fresh f
    fresh := fs.fresh + 1 }

def restoreCanonical (b : Binary Data Box) (x : DecompressFates) (r : Record) : Io Data Box Unit := do
  let w ← get
  if (w.fs.links.get? r.canonical).isSome then pure ()
  else do
    perform (x.prepare r.container) id
    match (w.fs.containers.get? r.container).bind b.decompress with
    | none => raise .binary
    | some data => do
      perform (x.unpack r.container) id
      perform (x.chmod r.container) id
      perform (x.replace r.container) fun fs => fs.create r.canonical ⟨data, r.mode⟩

def linkAliases (x : DecompressFates) (canonical : String) : List String → Io Data Box Unit
  | [] => pure ()
  | a :: as => do
    let w ← get
    match w.fs.links.get? a, w.fs.links.get? canonical with
    | some _, _ => linkAliases x canonical as
    | none, none => raise .os
    | none, some i => do
      perform (x.link a) fun fs => { fs with links := fs.links.set a i }
      linkAliases x canonical as

def restoreRecord (b : Binary Data Box) (x : DecompressFates) (r : Record) : Io Data Box Unit := do
  restoreCanonical b x r
  linkAliases x r.canonical r.aliases
  perform (x.check r.container) id
  let w ← get
  if r.paths.all fun p => (w.fs.links.get? p).isSome && w.fs.links.get? p = w.fs.links.get? r.canonical then pure ()
  else raise .identity

def restoreRecords (b : Binary Data Box) (x : DecompressFates) : List Record → Io Data Box Unit
  | [] => pure ()
  | r :: rs => do
    restoreRecord b x r
    restoreRecords b x rs

def decompressSnapshot (b : Binary Data Box) (x : DecompressFates) : Io Data Box Unit := do
  let w ← get
  match w.fs.manifest with
  | none => pure ()
  | some records => do
    perform x.read id
    restoreRecords b x records
    dropContainers x.dropContainer records
    rmtree x.rmtree
    dropManifest x.dropManifest
    perform x.sizes id

inductive Action
  | compress (x : CompressFates)
  | decompress (x : DecompressFates)

abbrev Outcome := Except Fault Unit

def call (y : Io Data Box Unit) (fs : Fs Data Box) : Outcome × Fs Data Box :=
  ((y.run ⟨fs, []⟩).1, (y.run ⟨fs, []⟩).2.fs)

-- A file operation works, raises without an effect, or the process stops before it, which no handler sees.
def next (b : Binary Data Box) (candidates : List String) (fs : Fs Data Box) : Action → Option (Fs Data Box × Outcome)
  | .compress x => some ((call (compressSnapshot b candidates x) fs).2, (call (compressSnapshot b candidates x) fs).1)
  | .decompress x => some ((call (decompressSnapshot b x) fs).2, (call (decompressSnapshot b x) fs).1)

def Start (fs : Fs Data Box) : Prop :=
  (∀ p i, fs.links.get? p = some i → i < fs.fresh) ∧ fs.directory = false ∧ fs.containers = ∅ ∧ fs.manifest = none

def system (b : Binary Data Box) (candidates : List String) : System (Fs Data Box) (Action × Outcome) :=
  .ofNext Start (next b candidates)

end ClawBox.Compression
