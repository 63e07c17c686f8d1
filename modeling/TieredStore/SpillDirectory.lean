import TieredStore.Compression
import TieredStore.Container
import TieredStore.Frame
import TieredStore.Volume

/-!
# The spill directory

Every spilled proxy becomes one file in a single directory. Files are named after the run, which
has a name of its own, and a counter that only grows, so no file name is used twice.

A spill file is read at most once: reading removes it.
-/

namespace TieredStore

/-- The directory that spill files are written to. -/
structure SpillDirectory where
  /-- Where the directory is. -/
  root : Path
  /-- What the names of all files of this run start with. -/
  runName : String
  /-- The number of the file that was named last. -/
  counter : Nat
  /-- Whether the directory is on a file system that several workers share. -/
  sharedFilesystem : Bool
  /-- Whether raw frames are compressed on request. -/
  compression : Bool
  /-- The files. -/
  volume : Volume

namespace SpillDirectory

/-- A new directory at `root`, for a run that is told apart from others by `tag`. The directory
must be one that can be created. -/
def create (root : Path) (tag : String) (sharedFilesystem creatable : Bool) :
    Except Error SpillDirectory :=
  if creatable then
    .ok {
      root
      runName := "spilled-data-" ++ tag
      counter := 0
      sharedFilesystem
      compression := true
      volume := .empty }
  else .error (.uncreatableDirectory root.text)

/-- What the paths of all files of this run start with. -/
def stem (d : SpillDirectory) : Path := d.root.join d.runName

/-- The path of the `n`-th file. -/
def filePath (d : SpillDirectory) (n : Nat) : Path := ⟨d.stem.text ++ "-" ++ toString n⟩

/-- The number at the end of a path that was made by `filePath`. -/
def fileNumber? (d : SpillDirectory) (path : Path) : Option Nat :=
  (path.text.dropPrefix? (d.stem.text ++ "-")).bind (fun s => s.toNat?)

/-- The numbers of the files that are there, in order. -/
def fileNumbers (d : SpillDirectory) : List Nat :=
  (d.volume.files.keys.filterMap d.fileNumber?).mergeSort

/-- A path that was not given out before. -/
def nextPath : StateM SpillDirectory Path := fun d =>
  let d := { d with counter := d.counter + 1 }
  (d.filePath d.counter, d)

/-- The frames as they are written, with their header. Raw frames are compressed if that is asked
for and enabled. A list of compressions that does not go with the frames is replaced. -/
def prepare (d : SpillDirectory) (header : FrameHeader) (frames : List Bytes) (compress : Bool) :
    FrameHeader × List Bytes :=
  if compress && d.compression && !header.isCompressed then
    let shrunk := frames.map Compression.shrink
    ({ header with compression := shrunk.map Prod.fst, count := frames.length },
      shrunk.map Prod.snd)
  else if header.compression.length = frames.length then
    ({ header with count := frames.length }, frames)
  else
    ({ header with compression := frames.map (fun _ => none), count := frames.length }, frames)

/-- An action on the files of the directory. -/
def onVolume {α : Type} (action : EStateM Error Volume α) : EStateM Error SpillDirectory α :=
  fun d =>
    match action d.volume with
    | .ok a volume => .ok a { d with volume }
    | .error e volume => .error e { d with volume }

/-- Writes frames to a new spill file. The number of the file is used up even if it cannot be
written. -/
def dump (header : FrameHeader) (frames : List Bytes) (compress : Bool) :
    EStateM Error SpillDirectory DiskHeader := do
  let d ← get
  let (subHeader, frames) := d.prepare header frames compress
  let path ← modifyGet nextPath
  let packed := Container.pack frames
  onVolume (Volume.write path packed)
  return {
    serializer := .disk
    path
    sharedFilesystem := d.sharedFilesystem
    subHeader
    size := packed.length }

/-- The error for a spill file that holds another number of frames than its header says. -/
def wrongCount (path : Path) (actual expected : Nat) : Error :=
  .deserialization ("spill file " ++ path.text ++ " holds " ++ toString actual
    ++ " frames, header says " ++ toString expected)

/-- The frames in the content of a spill file, decompressed, with their header. Frames without a
place in the list of compressions are dropped, unless the list is empty. -/
def decode (header : DiskHeader) (data : Bytes) : Except Error (FrameHeader × List Bytes) := do
  let sub := header.subHeader
  let frames ← Container.unpack data
  if frames.length ≠ sub.count then
    throw (wrongCount header.path frames.length sub.count)
  let frames ←
    if sub.compression.isEmpty then pure frames
    else (sub.compression.zip frames).mapM (fun (codec, frame) => Compression.restore codec frame)
  return ({ sub with compression := frames.map (fun _ => none) }, frames)

/-- Reads a spill file back into frames. The file is gone once it could be read, even if its
content is refused. -/
def load (header : DiskHeader) : EStateM Error Volume (FrameHeader × List Bytes) := do
  let data ← Volume.read header.path
  Volume.remove header.path
  match decode header data with
  | .ok result => return result
  | .error e => throw e

end SpillDirectory

end TieredStore
