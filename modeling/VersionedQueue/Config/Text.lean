import VersionedQueue.Config.FileTree
import VersionedQueue.Record.Basic
import VersionedQueue.Toml.Parse

/-!
# Configurations in files

A configuration is written as a TOML document.  It is read whole, then checked for its bounds.
-/

set_option autoImplicit false
set_option relaxedAutoImplicit false

namespace VersionedQueue

namespace Config

def ofText (text : String) : Except QueueError Config :=
  match (Toml.parse text).bind (Record.read? .toml) with
  | none => .error .parseConfig
  | some (config : Config) => config.validate.map fun _ => config

def ofFile (root : FileTree) (workingDirectory : List String) (path : String) :
    Except QueueError Config :=
  match (root.find workingDirectory path).bind FileTree.text with
  | .error failure => .error (.readConfig path failure)
  | .ok text => ofText text

end Config

end VersionedQueue
