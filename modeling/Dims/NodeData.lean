import Dims.SignedPayload

/-!
# The ranking message

What monitors tell each other and their trackers. The sets of the source are ordered by
public key, which nothing here depends on; they are lists.
-/

namespace Dims

structure CAllyMonitorData extends CValidNodeInfo
  deriving DecidableEq

structure CAllyTrackerData extends CTrackerData where
  allyMonitorKey : CPubKey
  deriving DecidableEq

structure CRankingFullInfo where
  allyTrackers : List CAllyTrackerData
  allyMonitors : List CAllyMonitorData
  trackers : List CTrackerData
  synchronizedTrackers : List CKeyID
  time : Int64
  leadingKey : Uint256
  deriving DecidableEq

end Dims
