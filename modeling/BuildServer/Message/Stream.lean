import BuildServer.Message.Incoming

namespace BuildServer.Incoming

def ofOutcome? : Frame.Outcome → Option Incoming
  | .body b => (parse b).toOption
  | _ => none

def feed (d : Frame.Decoder) (bytes : Bytes) : List Incoming × Frame.Decoder :=
  let (os, d) := d.feed bytes
  (os.filterMap ofOutcome?, d)

def brokenStream (reason : String) : String :=
  "reading from input stream: " ++ reason

end BuildServer.Incoming
