import WasmEngine.Error

/-!
# Options

The limits an instance is started with: how many calls may be nested and how
many pages its memory may have.
-/

namespace WasmEngine

/-- The limits of an instance. -/
structure Options where
  /-- The most calls that may be active at a time. -/
  maxCallDepth : Nat := 251
  /-- The most pages of memory. -/
  maxPages : Nat := 65536
  deriving DecidableEq

namespace Options

/-- The highest ceiling that is supported. -/
def highestCallDepth : Nat := 512

/-- Options that can be honoured are returned as they are. -/
def validate (o : Options) : Except Error Options :=
  if highestCallDepth < o.maxCallDepth then
    .error (.options (.callDepth o.maxCallDepth highestCallDepth))
  else .ok o

/-- The diagnostic form. -/
def debug (o : Options) : String :=
  Text.record "Options"
    [("max_call_depth", toString o.maxCallDepth), ("max_pages", toString o.maxPages)]

/-- The options as a JSON object. -/
def json (o : Options) : String :=
  "\x7b\"max_call_depth\":" ++ toString o.maxCallDepth ++ ",\"max_pages\":" ++ toString
    o.maxPages ++ "\x7d"

end Options

end WasmEngine
