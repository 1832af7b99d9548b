import SmallSql.Main
import SmallSql.Proofs.Calls
import SmallSql.Proofs.Concatenation
import SmallSql.Proofs.Conversation
import SmallSql.Proofs.Lookup
import SmallSql.Proofs.Parentheses
import SmallSql.Proofs.Rendering
import SmallSql.Proofs.Sessions
import SmallSql.Proofs.Texts
