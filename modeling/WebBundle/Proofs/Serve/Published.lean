import WebBundle.Proofs.Build.Revisions
import WebBundle.Proofs.Serve.Routes

/-!
# Published addresses

A build publishes an address for every file that a worker stores ahead of use and for every script
that its page starts: the path of the file behind the public path, as it is. A server takes an
address apart. So it answers with the file if the path of the file is plain, unless another file of
the output was written to the same place later.
-/

namespace WebBundle

/-! ## Written files -/

namespace Output

open Storage

variable {storage after : Storage} {directory : String} {file : File} {files : List File}

end Output

namespace Build

open Storage Output Serve

variable {storage : Storage} {options : Options} {collaborators : Collaborators}
  {assembly : Assembly} {report : Report} {url : String}

end Build

end WebBundle
