import PageManifest.Log.File
import PageManifest.Log.Filter

/-!
# Where records are written

A log file together with the filter that says which records are wanted in it. Each of these is
written to the file as soon as it is noted.
-/

namespace PageManifest.Log

/-- A log file, and which records are wanted in it. -/
structure Sink where
  file : LogFile
  filter : Filter

/-- Writes a record to the log file, if it is wanted. -/
def Sink.write (sink : Sink) (tree : FileTree) (record : Record) : FileTree :=
  if sink.filter.passes record then sink.file.write tree record.line else tree

end PageManifest.Log
