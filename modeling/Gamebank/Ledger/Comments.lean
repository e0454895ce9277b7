import Gamebank.Protocol.Validation
import Gamebank.Ledger.Voting

/-!
# Comments

`comment_evaluator`, `delete_comment_evaluator` and `retally_comment_children`
of a full node. A comment is looked up by its author and its permlink, which
`by_permlink` compares with `strcmp`. All three functions walk from a comment
to its parent and on to the top, by name; `updateAncestors` is that loop, and
its fuel bounds the number of turns.

What `diff_match_patch` makes of the body of a comment and what is JSON are
parameters. `post_bandwidth` is written back as it was.
-/

namespace Gamebank.Ledger

open Gamebank.Lib Gamebank.Protocol

/-- `GAMEBANK_ROOT_POST_PARENT`. -/
def rootPostParent : AccountName := ""

/-- `GAMEBANK_MAX_COMMENT_DEPTH`. -/
def maxCommentDepth : Nat := 65535

/-- `GAMEBANK_MIN_ROOT_COMMENT_INTERVAL`. -/
def minRootCommentInterval : Int := 300

/-- `GAMEBANK_MIN_REPLY_INTERVAL`. -/
def minReplyInterval : Int := 20

/-- `GAMEBANK_MIN_REPLY_INTERVAL_HF01`. -/
def minReplyIntervalHf01 : Int := 3

/-- `GAMEBANK_CASHOUT_WINDOW_SECONDS`. -/
def cashoutWindowSeconds : Nat := 604800

/-- The range of `uint32_t`. -/
def uint32Range : Nat := 4294967296

/-- `comment_operation`. -/
structure CommentOperation where
  parentAuthor : AccountName
  parentPermlink : String
  author : AccountName
  permlink : String
  title : String
  body : String
  jsonMetadata : String
deriving DecidableEq

/-- `delete_comment_operation`. -/
structure DeleteCommentOperation where
  author : AccountName
  permlink : String
deriving DecidableEq

/-- What is done with texts. -/
structure TextTools where
  isValidJson : String → Bool
  /-- The new body, from the old one and the body of the operation. -/
  patch : String → String → String

/-- `comment_operation::validate`. -/
def CommentOperation.validate (tools : TextTools) (o : CommentOperation) : Except String Unit := do
  ensure (o.title.utf8ByteSize < 256) "Title larger than size limit"
  ensure (0 < o.body.utf8ByteSize) "Body is empty"
  if o.parentAuthor ≠ "" then validateAccountName o.parentAuthor
  validateAccountName o.author
  validatePermlink o.parentPermlink
  validatePermlink o.permlink
  ensure (o.jsonMetadata = "" || tools.isValidJson o.jsonMetadata) "JSON Metadata not valid JSON"

/-- `delete_comment_operation::validate`. -/
def DeleteCommentOperation.validate (o : DeleteCommentOperation) : Except String Unit := do
  validatePermlink o.permlink
  validateAccountName o.author

/-- `validate_permlink_0_1`. -/
def validatePermlink01 (permlink : String) : Except String Unit := do
  ensure (0 < permlink.utf8ByteSize && permlink.utf8ByteSize < maxPermlinkLength)
    "Permlink is not a valid size."
  ensure (permlink.toList.all fun c => isLetter c || isDigit c || c = '-')
    "Invalid permlink character"

/-- `strcmp_equal`: texts of the same size are equal, too. -/
def strcmpEqual (a b : String) : Bool := a.utf8ByteSize = b.utf8ByteSize || cString a = cString b

namespace Comment

/-- A key of `by_permlink`. -/
abbrev Key := AccountName × String

def key (c : Comment) : Key := (c.author, cString c.permlink)

/-- The key of the parent. -/
def parentKey (c : Comment) : Option Key :=
  if c.parentAuthor = rootPostParent then none else some (c.parentAuthor, cString c.parentPermlink)

end Comment

/-- The comments a function has to look at while it changes them. -/
abbrev Comments := Table Comment

namespace Comments

/-- `find_comment`. -/
def findComment (comments : Comments) (author : AccountName) (permlink : String) : Option Comment :=
  comments.find? fun c => c.key = (author, cString permlink)

/-- `get_comment`. -/
def getComment (comments : Comments) (author : AccountName) (permlink : String) :
    Except String Comment :=
  Database.require (findComment comments author permlink)

/-- The loop over a comment and its ancestors. -/
def updateAncestors (f : Comment → Comment) : Nat → Comment → Comments → Except String Comments
  | 0, _, _ => .error "out of fuel"
  | fuel + 1, parent, comments => do
      let comments := comments.modify (fun c => c.id = parent.id) f
      if parent.parentAuthor ≠ rootPostParent then
        let next ← getComment comments parent.parentAuthor parent.parentPermlink
        updateAncestors f fuel next comments
      else return comments

/-- Enough for a comment that is nowhere deeper than allowed. -/
def fuel : Nat := maxCommentDepth + 1

/-- One more descendant. -/
def countUp (c : Comment) : Comment := { c with children := (c.children + 1) % uint32Range }

/-- A reply has been made. -/
def replied (now : Nat) (c : Comment) : Comment :=
  { c with children := (c.children + 1) % uint32Range, active := now }

/-- A reply has been deleted. -/
def unreplied (now : Nat) (c : Comment) : Comment :=
  { c with children := (c.children + (uint32Range - 1)) % uint32Range, active := now }

/-- One turn of the second loop of `retally_comment_children`. -/
def retallyComment (comments : Comments) (c : Comment) : Except String Comments := do
  if c.parentAuthor ≠ rootPostParent then
    let parent ← getComment comments c.parentAuthor c.parentPermlink
    updateAncestors countUp fuel parent comments
  else return comments

/-- `retally_comment_children`. The second loop changes no parents. -/
def retallyCommentChildren (comments : Comments) : Except String Comments :=
  let cleared : Comments :=
    { comments with rows := comments.rows.map fun c => { c with children := 0 } }
  cleared.rows.foldlM retallyComment cleared

end Comments

/-- The new object of `comment_evaluator`. -/
def CommentOperation.newComment (o : CommentOperation) (parent : Option Comment) (now id : Nat) :
    Comment where
  id := id
  category := match parent with | none => o.parentPermlink | some p => p.category
  parentAuthor := match parent with | none => "" | some p => p.author
  parentPermlink := match parent with | none => o.parentPermlink | some p => p.permlink
  author := o.author
  permlink := o.permlink
  lastUpdate := now
  created := now
  active := now
  lastPayout := 0
  depth := match parent with | none => 0 | some p => p.depth + 1
  children := 0
  netRshares := 0
  absRshares := 0
  voteRshares := 0
  childrenAbsRshares := 0
  cashoutTime := (now + cashoutWindowSeconds) % uint32Range
  maxCashoutTime := maximumTime
  totalVoteWeight := 0
  rewardWeight := hundredPercent
  totalPayoutValue := 0
  curatorPayoutValue := 0
  beneficiaryPayoutValue := 0
  authorRewards := 0
  netVotes := 0
  rootComment := match parent with | none => id | some p => p.rootComment
  maxAcceptedPayout := 1000000000
  percentGamebankDollars := hundredPercent
  allowReplies := true
  allowVotes := true
  allowCurationRewards := true
  beneficiaries := []

namespace Database

/-- The author has waited long enough. -/
def checkInterval (s : Database) (auth : Account) (root : Bool) : Except String Unit :=
  let now : Int := s.headBlockTime
  if root then
    ensure (now - auth.lastRootPost > minRootCommentInterval)
      "You may only post once every 5 minutes."
  else if s.hardfork01 then
    ensure (now - auth.lastPost ≥ minReplyIntervalHf01) "You may only comment once every 3 seconds."
  else
    ensure (now - auth.lastPost > minReplyInterval) "You may only comment once every 20 seconds."

/-- `comment_evaluator`, for a new comment. -/
def createComment (s : Database) (auth : Account) (parent : Option Comment) (o : CommentOperation) :
    Except String Database := do
  match parent with
  | none => pure ()
  | some p =>
      let root ← require (s.comments.find? fun c => c.id = p.rootComment)
      ensure root.allowReplies "The parent comment has disabled replies."
  s.checkInterval auth parent.isNone
  let now := s.headBlockTime
  let s ← s.modifyAccount o.author fun a =>
    { a with
      lastRootPost := if parent.isNone then now else a.lastRootPost
      lastPost := now
      postCount := (a.postCount + 1) % uint32Range }
  validatePermlink01 o.parentPermlink
  validatePermlink01 o.permlink
  let comments := s.comments.create (o.newComment parent now)
  let contents := s.commentContents.create fun _ =>
    { comment := s.comments.nextId
      title := o.title
      body := if o.body.utf8ByteSize < 134217728 then o.body else ""
      jsonMetadata := o.jsonMetadata }
  match parent with
  | none => return { s with comments := comments, commentContents := contents }
  | some p =>
      let comments ← Comments.updateAncestors (Comments.replied now) Comments.fuel p comments
      return { s with comments := comments, commentContents := contents }

/-- `comment_evaluator`, for a comment that exists. -/
def editComment (tools : TextTools) (s : Database) (c : Comment) (parent : Option Comment)
    (o : CommentOperation) : Except String Database := do
  match parent with
  | none => ensure (c.parentAuthor = "") "The parent of a comment cannot change."
  | some _ => ensure (c.parentAuthor = o.parentAuthor) "The parent of a comment cannot change."
  ensure (strcmpEqual c.parentPermlink o.parentPermlink) "The permlink of a comment cannot change."
  let now := s.headBlockTime
  let _ ← require (s.commentContents.find? fun d => d.comment = c.id)
  return { s with
    comments := s.comments.modify (fun d => d.id = c.id) fun d =>
      { d with lastUpdate := now, active := now }
    commentContents := s.commentContents.modify (fun d => d.comment = c.id) fun d =>
      { d with
        title := if o.title = "" then d.title else o.title
        jsonMetadata := if o.jsonMetadata = "" then d.jsonMetadata else o.jsonMetadata
        body := if o.body = "" then d.body else tools.patch d.body o.body } }

/-- The parent that an operation names. -/
def findParent (s : Database) (o : CommentOperation) : Except String (Option Comment) := do
  if o.parentAuthor ≠ rootPostParent then
    let parent ← Comments.getComment s.comments o.parentAuthor o.parentPermlink
    ensure (parent.depth < maxCommentDepth) "Comment is nested too deep."
    return some parent
  else return none

/-- `comment_evaluator`. -/
def comment (tools : TextTools) (s : Database) (o : CommentOperation) : Except String Database := do
  ensure (0 < o.title.utf8ByteSize + o.body.utf8ByteSize + o.jsonMetadata.utf8ByteSize)
    "Cannot update comment because nothing appears to be changing."
  let auth ← s.getAccount o.author
  let parent ← s.findParent o
  match Comments.findComment s.comments o.author o.permlink with
  | none => s.createComment auth parent o
  | some c => s.editComment tools c parent o

/-- `delete_comment_evaluator`. -/
def deleteComment (s : Database) (o : DeleteCommentOperation) : Except String Database := do
  let c ← Comments.getComment s.comments o.author o.permlink
  ensure (c.children = 0) "Cannot delete a comment with replies."
  ensure (c.cashoutTime ≠ maximumTime) ""
  ensure (c.netRshares ≤ 0) "Cannot delete a comment with net positive votes."
  let commentVotes := s.commentVotes.filter fun v => v.comment ≠ c.id
  let now := s.headBlockTime
  let comments ← if c.parentAuthor ≠ rootPostParent then do
      let parent ← Comments.getComment s.comments c.parentAuthor c.parentPermlink
      Comments.updateAncestors (Comments.unreplied now) Comments.fuel parent s.comments
    else pure s.comments
  return { s with
    comments := comments.remove fun d => d.id = c.id
    commentVotes := commentVotes }

end Database

end Gamebank.Ledger
