import BbShared.ConnectionStore
import BbShared.SessionQueue

/-!
# Records that were not sealed

What the two loads do with a payload that is no envelope.  `Sessions.load` looks at `migrated` and
refuses it; `ConnectionRecordStore.load` does not look, and takes a plain text that reads as a
snapshot.
-/

namespace BbShared

open Js

variable (parser : UrlParser) (aes : Aes)

variable {parser aes}

end BbShared
