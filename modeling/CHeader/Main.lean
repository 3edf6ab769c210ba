import CHeader.Command.Lookup

/-!
# The command line

The program on the real file system: what a run looks at is loaded into a file tree, then the run is
made on that tree.
-/
namespace CHeader.Program

open Text

/-- Load what stands at a location, if there is anything. -/
def loadEntry (tree : FileTree) (location : Location) : IO FileTree := do
  let path := (← IO.currentDir) / String.ofList (FileTree.locationText location)
  try
    match (← path.symlinkMetadata).type with
    | .dir => return { tree with entries := tree.entries.set location .directory }
    | .symlink =>
      let target ← IO.FS.realPath path
      return { tree with entries := tree.entries.set location (.link target.toString.toList) }
    | _ =>
      let contents ← try
          pure (some (← IO.FS.readBinFile path).toList)
        catch _ => pure none
      let known := { tree with entries := tree.entries.set location (.file (contents.getD [])) }
      return if contents.isSome then known else known.deny location (some .both)
  catch _ => return tree

/-- Load all that a run looks at; `absent` are the locations that nothing was found at. -/
partial def loadTree (arguments : List Text) (tree : FileTree) (absent : List Location) :
    IO FileTree := do
  match (unknownLocations tree arguments).filter (!absent.contains ·) with
  | [] => return tree
  | locations =>
    let tree ← locations.foldlM loadEntry tree
    loadTree arguments tree (locations ++ absent)

def levelName : LogLevel → String
  | .debug => "DEBUG"
  | .warning => "WARNING"

end CHeader.Program

open CHeader in
def main (arguments : List String) : IO UInt32 := do
  let arguments := arguments.map String.toList
  let here := FileTree.locationOf (← IO.currentDir).toString.toList
  let empty : FileTree := ⟨[], here, []⟩
  let tree ← Program.loadTree arguments (empty.put here .directory) []
  let screen := ((← IO.getEnv "COLUMNS").bind String.toNat?).getD 80
  let ending := Program.run tree screen arguments
  IO.print (String.ofList ending.output)
  for (level, message) in ending.log do
    IO.eprintln (Program.levelName level ++ " " ++ String.ofList message)
  IO.eprint (String.ofList ending.errors)
  for fault in ending.fault.toList do
    IO.eprintln (String.ofList fault.message)
  return ending.status.toUInt32
