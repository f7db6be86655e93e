import IPchain.Lib.Network
import IPchain.Lib.Dict
import IPchain.Lib.IPSet
import IPchain.Lib.Radix
import IPchain.Lib.Ranges
import IPchain.Lib.Concrete
import IPchain.Lib.Program
import IPchain.Lib.Advance
import IPchain.Lib.Registry
import IPchain.Lib.Keccak
import IPchain.Lib.Sha256
import IPchain.Lib.Serial
import IPchain.Exceptions
import IPchain.Utils
import IPchain.Beacon
import IPchain.Consensus
import IPchain.Rounds
import IPchain.Transactions
import IPchain.Blocks
import IPchain.Encoding
import IPchain.Balance
import IPchain.Cache
import IPchain.State
import IPchain.Apply
import IPchain.Decoding
import IPchain.Trie
import IPchain.Genesis
import IPchain.Ledger
import IPchain.Step
import IPchain.Effect
import IPchain.Runs
import IPchain.Ownership
import IPchain.Applicability
import IPchain.Delegations
import IPchain.ApplyBlock
import IPchain.Pending
import IPchain.Turns
import IPchain.Chain
import IPchain.Replay
import IPchain.Replicas
import IPchain.Calls
import IPchain.Index
import IPchain.Retrieval
import IPchain.Delivery
import IPchain.Service
import IPchain.Copies
import IPchain.Commitment
import IPchain.BlockAgreement
import IPchain.Failure
import IPchain.Atomicity
import IPchain.Records
import IPchain.Lookup
import IPchain.Signer
import IPchain.Draft
import IPchain.Pool
import IPchain.Production
import IPchain.Making
import IPchain.Node
import IPchain.Loop
import IPchain.Checks
import IPchain.Adoption
import IPchain.Moves
import IPchain.Lasting
import IPchain.Acceptance
import IPchain.Observer
import IPchain.Expectation
import IPchain.Rejection
import IPchain.Keys
import IPchain.Integrity
import IPchain.Readiness
import IPchain.Shares
import IPchain.Stream
import IPchain.Handover
import IPchain.Factory
import IPchain.Download
import IPchain.Feed
import IPchain.Grammar
import IPchain.Recovery
import IPchain.Lib.Assume
import IPchain.Database
import IPchain.MerkleTrie
import IPchain.Lib.Patricia
import IPchain.Nodes
import IPchain.Reading
import IPchain.Writing
import IPchain.Deleting
import IPchain.Listing
import IPchain.Contents
import IPchain.Roots
import IPchain.RlpDecoder
import IPchain.Identity
import IPchain.Locators
import IPchain.Lib.Parity
import IPchain.Folds
import IPchain.Oor
import IPchain.Draws
import IPchain.Values
import IPchain.Upkeep
import IPchain.Waiting
import IPchain.Lib.Framing
import IPchain.Protocols
import IPchain.Requests
import IPchain.Queries
import IPchain.Journal
import IPchain.Packing
import IPchain.Counting
import IPchain.Lib.Sharing
import IPchain.Members
import IPchain.Dealing
import IPchain.GroupKeys
import IPchain.Degrees
import IPchain.Lib.Bits
import IPchain.MapReply
import IPchain.Limits
import IPchain.Gossip
import IPchain.Epochs
import IPchain.Elected
import IPchain.Latecomer
import IPchain.Lib.Mirror
import IPchain.Storage
import IPchain.Securing
import IPchain.Persistence
import IPchain.Sessions
import IPchain.Snapshots
import IPchain.Answers
import IPchain.Walks
import IPchain.Clones
import IPchain.Restart
import IPchain.Relaying
