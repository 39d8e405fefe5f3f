import RailsLookup.CommandLine.Run

/-! # The program

Copies what a command may look at from the file system into a disk, runs the command there
and prints its report.
-/

namespace RailsLookup.Program

def nameOf (s : String) : Name := s.toUTF8.toList

def entryAt (place : Place) : IO.FS.DirEntry :=
  ⟨⟨"/"⟩, String.ofList (Utf8.decode ([Path.slash].intercalate place.reverse))⟩

def placeOf (path : String) : Place :=
  ((nameOf path).splitOn Path.slash).filter (!·.isEmpty) |>.reverse

def target? (place : Place) : IO (Option Place) := do
  try return some (placeOf (← IO.FS.realPath (entryAt place).path).toString)
  catch _ => return none

def typeAt? (place : Place) : IO (Option IO.FS.FileType) := do
  try return some (← (entryAt place).path.symlinkMetadata).type
  catch _ => return none

def add (place : Place) (e : Entry) (d : Disk) : Disk :=
  { d with entries := (place, e) :: d.entries }

/-- Copies all at and below a place, and what its links lead to. -/
partial def copy (place : Place) (d : Disk) : IO Disk := do
  if !place.isEmpty && (d.get? place).isSome then return d
  match ← typeAt? place with
  | some .dir =>
    let children ← try (entryAt place).path.readDir catch _ => pure #[]
    children.foldlM (fun d child => copy (nameOf child.fileName :: place) d)
      (add place .directory d)
  | some .file =>
    try return add place (.file (← IO.FS.readBinFile (entryAt place).path).toList) d
    catch _ => return d
  | some .symlink =>
    match ← target? place with
    | some target => copy target (add place (.link target.toPath) d)
    | none => return d
  | _ => return d

/-- Copies what a path leads to from a directory, with the links on the way. -/
def approach (d : Disk) (place : Place) : List Name → IO Disk
  | [] => copy place d
  | piece :: rest => do
    if piece.isEmpty || piece == Path.dot then approach d place rest
    else if piece == Path.dotDot then approach d place.tail rest
    else
      match ← typeAt? (piece :: place) with
      | some .symlink =>
        match ← target? (piece :: place) with
        | some target => approach (add (piece :: place) (.link target.toPath) d) target rest
        | none => return d
      | some _ => approach d (piece :: place) rest
      | none => return d

def addParents (d : Disk) : Place → Disk
  | [] => d
  | _ :: parent =>
    addParents (if (d.get? parent).isSome then d else add parent .directory d) parent

def snapshot (paths : List Path) : IO Disk := do
  let working := placeOf (← IO.FS.realPath (← IO.currentDir)).toString
  let d ← paths.foldlM (fun d p =>
    approach d (if p.isAbsolute then [] else working) p.pieces) { working }
  return d.entries.foldl (fun d (place, _) => addParents d place) d

def userFile? : IO (Option Path) := do
  let home? ← IO.getEnv "HOME"
  let base? :=
    match ← IO.getEnv "XDG_CONFIG_HOME" with
    | some dir => if dir.startsWith "/" then some dir else home?.map (· ++ "/.config")
    | none => home?.map (· ++ "/.config")
  return base?.map fun dir => (Path.ofString dir).joinAll ["rails-goto", "config.toml"]

/-- The paths of all URLs in the parameters of a message. -/
partial def urlPaths : Json → List Path
  | .str s => (Path.ofUrlText? s).toList
  | .arr items => items.flatMap urlPaths
  | .obj members => members.flatMap fun (_, j) => urlPaths j
  | _ => []

def pathsIn : Wire.Incoming → List Path
  | .message m => m.params?.toList.flatMap urlPaths
  | _ => []

def send (t : Text) : IO Unit := do
  let out ← IO.getStdout
  out.putStr (String.ofList t)
  out.flush

partial def readHeader (input : IO.FS.Stream) (done : Bytes) : IO Bytes := do
  let line ← input.getLine
  let done := done ++ nameOf line
  if line.isEmpty || line == "\n" || line == "\r\n" then return done
  readHeader input done

partial def readBody (input : IO.FS.Stream) (size : Nat) (done : Bytes) : IO Bytes := do
  if done.length ≥ size then return done
  let more ← input.read (size - done.length).toUSize
  if more.isEmpty then return done
  readBody input size (done ++ more.toList)

partial def serve (w : World) : IO Unit := do
  let input ← IO.getStdin
  let header ← readHeader input []
  if header.isEmpty then return
  let size := ((Wire.header? header).bind fun (lines, _) => Wire.contentLength? lines).getD 0
  let bytes := header ++ (← readBody input size [])
  let paths := (Wire.incoming bytes).flatMap pathsIn
  let d ← snapshot (w.user?.toList ++ w.session.workspace?.toList ++ paths)
  let (w, sent) := World.serve { w with disk := d } bytes
  send sent
  if w.session.phase = .exited then return
  serve w

def usage : String :=
  "usage: rails-goto-lsp [-v] [serve | locate FILE LINE COLUMN [--workspace DIR]]"

def run (args : List String) : IO UInt32 := do
  let user? ← userFile?
  match CommandLine.Invocation.ofArguments (args.map String.toList) with
  | .serve =>
    serve { disk := {}, user? }
    return 0
  | i =>
    let paths :=
      match i with
      | .locate a =>
        let root := Path.ofText (a.workspace?.getD ['.'])
        [root, root.join (.ofText a.file)]
      | _ => []
    let report := i.run (← snapshot (user?.toList ++ paths)) user? []
    send report.output
    if report.exit == 1 then IO.eprintln "No definition found"
    if i = .help || i = .misuse then IO.eprintln usage
    return report.exit.toUInt32

end RailsLookup.Program

def main (args : List String) : IO UInt32 := RailsLookup.Program.run args
