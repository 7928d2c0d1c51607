import QudoSSL.MakeRuns

/-!
# The recorded prefix

`openssl` reconfigures when `grep` does not find `--prefix=$(PREFIX)` in `configdata.pm`.  The
search is a regular expression and is not anchored at the end, so a `configdata.pm` recorded for
another prefix can satisfy it.
-/

namespace QudoSSL

open Posix

end QudoSSL
