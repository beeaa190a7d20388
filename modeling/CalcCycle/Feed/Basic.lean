import CalcCycle.Feed.Token
import CalcCycle.Value.Payload

/-! A feed of live data freezes its values in snapshots. Values are asked for under the token of a
snapshot until that snapshot is released. -/

namespace CalcCycle

inductive FeedError
  | snapshotNotFound (token : Token)
  | sourceNotAvailable (reason : String)
  | malformed (reason : String)
  | unreadable (reason : String)
  deriving DecidableEq, Inhabited

def FeedError.message : FeedError → String
  | snapshotNotFound token => "snapshot not found: " ++ token.text
  | sourceNotAvailable reason => "source not available: " ++ reason
  | malformed reason => "parse error: " ++ reason
  | unreadable reason => "IO error: " ++ reason

/-- The name of the error for programs. -/
def FeedError.code : FeedError → String
  | snapshotNotFound .. => "SnapshotNotFound"
  | sourceNotAvailable .. => "SourceNotAvailable"
  | malformed .. => "ParseError"
  | unreadable .. => "IoError"

/-- What a feed with states `σ` answers. A snapshot is taken at a reading of the clock, in
milliseconds since 1970. -/
structure Feed (σ : Type) where
  snapshot : σ → Int → Except FeedError Token × σ
  query : σ → Token → Requirement → Except FeedError (Option Payload) × σ
  release : σ → Token → Except FeedError Unit × σ

end CalcCycle
