import Sigimora.Mcp.LedgerTiers

/-!
# The fate of one transaction

The tiers hold the records of all transactions, and a sweep visits them in an arbitrary
order. Yet every transaction goes its own way: what is found under an id depends on the
calls for this id and on the clock of the sweeps, not on other transactions. Only the
height of an approved transaction counts the others as well.
-/

namespace Sigimora.Mcp

variable [Curve]

namespace TransactionInfo

end TransactionInfo

namespace TransactionLedger

open TransactionInfo

variable {ledger : TransactionLedger} {txId id : TxId} {tx : PendingTransaction}

end TransactionLedger

end Sigimora.Mcp
