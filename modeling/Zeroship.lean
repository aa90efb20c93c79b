import Zeroship.Tx.Session
import Zeroship.Tx.Settlement
import Zeroship.Tx.Effects
import Zeroship.Policy.Extends
import Zeroship.Policy.Granular
import Zeroship.Policy.Injects
import Zeroship.Gateway.Limits
import Zeroship.Policy.Sealed
import Zeroship.Cdc.Emission
import Zeroship.Cdc.Inbox
import Zeroship.Cdc.Stream
import Zeroship.Workflow.Leases
import Zeroship.Workflow.Rotation
import Zeroship.Workflow.Lap
import Zeroship.Authority.Liveness
import Zeroship.Authority.Captures
import Zeroship.Migrate.Once
import Zeroship.Migrate.Rollback
import Zeroship.Metering.Conservation
import Zeroship.Orm.Masks
import Zeroship.Orm.Normal
import Zeroship.Orm.Targets
import Zeroship.Metering.Forwarder
import Zeroship.Billing.Corrections
import Zeroship.Billing.Consistency
import Zeroship.Billing.Notes
import Zeroship.Billing.Reissue
import Zeroship.Billing.Dunning
import Zeroship.Billing.Spend
import Zeroship.Billing.Proration
import Zeroship.Billing.Expiry
import Zeroship.Bundle.Routing
import Zeroship.Bundle.Effective
import Zeroship.Workflow.Keys
