import Gamebank.Rewards.Turns

/-!
# Votes are counted

A comment counts the shares of the votes on it and how many more of them are for it
than against it. A first vote and a change of a vote move both by what the vote is
worth now less what it was worth before; that a vote is taken back makes it worth
nothing.
-/

namespace Gamebank.Rewards

open Gamebank.Lib Gamebank.Protocol Gamebank.Ledger

/-! ## Signs -/

/-- The vote of bobby for the post of alice. -/
def voteEvents : List Event :=
  [.elsewhere populated,
    .comment ⟨"", "game", "alice", "post", "", "text", ""⟩,
    .newBlock (genesisTime + 3600),
    .vote ⟨"bobby", "alice", "post", 10000⟩]

/-- It is turned against the post, and taken back. -/
def voteChanges : List Event :=
  [.newBlock (genesisTime + 7200),
    .vote ⟨"bobby", "alice", "post", -5000⟩,
    .newBlock (genesisTime + 10800),
    .vote ⟨"bobby", "alice", "post", 0⟩]

example :
    let s := voteEvents.foldl (stepVotes plainTools) (Database.genesis 0)
    let states := voteChanges.scanl (stepVotes plainTools) s
    states.map (fun s => s.comments.rows.map fun c => (c.netRshares, c.netVotes)) =
      [[(2000000000000000, 1)], [(2000000000000000, 1)], [(-990000000000000, -1)],
        [(-990000000000000, -1)], [(0, 0)]] := by
  decide +kernel

end Gamebank.Rewards
